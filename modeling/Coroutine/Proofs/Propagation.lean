import Coroutine.Proofs.Guards
import Coroutine.Proofs.Recovery

/-! Panics of producers. Main statement: a panic goes through any number of nested producers with its
message, releases what is on their stacks, and leaves their generators as they were but for their
fibers, which are over; the next operation on each of these generators recovers from the panic. -/

namespace Coroutine

variable {C : Type}

namespace Frame

/-- Whether a panic that reaches the frame goes on to the frames below. These are the frames of an
operation that a producer does on a generator, by name or through a view or an iterator, and those of
the producer's stack. -/
def LetsThrough : Frame C → Prop
  | scope _ | closure _ | driving _ | switching _ _ | calling false _ | pulling _ _ | viewing _ _
  | reporting | holding _ | pullingNamed _ _ _ _ | closing _ => True
  | _ => False

end Frame

namespace Machine

variable {P : Program C} {g : GeneratorId} {w w' : World C} {fs frames base : List (Frame C)}
  {f : Frame C} {m m' : Machine C} {p : Panic}

/-- A frame that stays on the stack covers the switches below it. -/
theorem Tops.not_mem_chain (h : Tops g frames) (hf : ¬ f.IsPart) (hentered : f.entered? = none)
    (hfs : f :: fs <:+ frames) (hnodup : (chain frames).Nodup) : g ∉ chain fs := by
  have htop {top : Frame C} {rest : List (Frame C)} (htop : top.entered? = some g)
      (hfs : f :: fs <:+ top :: rest) (hnodup : (chain (top :: rest)).Nodup) : g ∉ chain fs := by
    intro hg
    rcases List.suffix_cons_iff.mp hfs with heq | hfs
    · cases heq
      cases hentered.symm.trans htop
    · have hmem := chain_subset_of_suffix ((List.suffix_cons f fs).trans hfs) hg
      rw [chain_cons, htop] at hnodup
      exact (List.nodup_cons.mp hnodup).1 hmem
  cases h with
  | entered rest hg => exact htop hg hfs hnodup
  | running scopes captures rest =>
    rw [chain_stackFiber] at hnodup
    have hdriving : (Frame.driving g : Frame C).entered? = some g := rfl
    exact htop hdriving (suffix_of_stackFiber hf hfs) hnodup

/-- While a frame stays on the stack, a generator that nothing is done with stays as it is, if control
is inside of it below that frame, or is not inside of it. -/
theorem body_of_within (hf : ¬ f.IsPart) (hentered : f.entered? = none) (hm : Reachable P m)
    (h : Within P (f :: fs) m m') (hg : g < m.world.generators.size)
    (hout : g ∈ chain fs ∨ (m.world.generator g).running = false)
    (huntouched : ∀ m₁ t, Within P (f :: fs) m m₁ → f :: fs <:+ m₁.frames →
      m₁.control = .task t → t.operates? = some g → (m₁.world.generator g).handles = 0) :
    (m'.world.generator g).handles = 0 ∨
      (m'.world.generator g).body = (m.world.generator g).body := by
  induction h with
  | refl => exact .inr rfl
  | @move m m' hfs hback hrest ih =>
    have hsound := hm.sound
    by_cases hop : ∃ t, m.control = .task t ∧ t.operates? = some g
    · obtain ⟨t, hcontrol, ht⟩ := hop
      have h0 := huntouched m t (.refl m) hfs hcontrol ht
      exact .inl (unheld_of_leads hm (.move hrest.leads) hg h0)
    have htops : ¬ Tops g m.frames := by
      intro htops
      rcases hout with hmem | hrun
      · obtain ⟨κ, hκ, -⟩ := hsound.order
        exact htops.not_mem_chain hf hentered hfs hκ.chain_nodup hmem
      · simp [(hsound.running_iff_mem_chain g).mpr htops.mem_chain] at hrun
    have hbody : ((m.next P).world.generator g).body = (m.world.generator g).body :=
      body_next_of_not_tops hsound hg htops fun t hcontrol ht => hop ⟨t, hcontrol, ht⟩
    have hrun : ((m.next P).world.generator g).running = (m.world.generator g).running := by
      have h := congrArg Generator.running hbody
      exact h
    rcases ih hm.move (Nat.lt_of_lt_of_le hg (size_le_next m)) (hrun ▸ hout)
      (fun m₁ t hwithin => huntouched m₁ t (.move hfs hback hwithin)) with h0 | hsame
    · exact .inl h0
    · exact .inr (hsame.trans hbody)

/-- While the panic `p` goes through the frames on top of `base`, what is released comes back, and no
operation is done on a generator in `S` that has a handle. -/
structure Calm (P : Program C) (p : Panic) (S : List GeneratorId) (base : List (Frame C))
    (m : Machine C) : Prop where
  released : ∀ w f fs, Within P base m ⟨w, .unwind (.panic p), f :: fs⟩ → base <:+ fs →
    f :: fs <:+ m.frames → .unwinding (.panic p) :: fs <:+ (leave w (.panic p) (f :: fs)).frames →
    ∃ w', Within P (.unwinding (.panic p) :: fs) (leave w (.panic p) (f :: fs))
      ⟨w', .answer .unit, .unwinding (.panic p) :: fs⟩
  untouched : ∀ m' t g, Within P base m m' → base <:+ m'.frames → m'.control = .task t →
    t.operates? = some g → g ∈ S → (m'.world.generator g).handles = 0

theorem Calm.within {S : List GeneratorId} (h : Calm P p S base m) (hm : Within P base m m')
    (hframes : m'.frames <:+ m.frames) : Calm P p S base m' where
  released w f fs hwithin hbase hfs :=
    h.released w f fs (hm.trans hwithin) hbase (hfs.trans hframes)
  untouched m₁ t g hwithin := h.untouched m₁ t g (hm.trans hwithin)

/-- What it is for the panic `p` to leave the frame `f`. -/
structure Passes (P : Program C) (p : Panic) (S : List GeneratorId) (f : Frame C)
    (fs : List (Frame C)) (w w' : World C) : Prop where
  within : Within P fs ⟨w, .unwind (.panic p), f :: fs⟩ ⟨w', .unwind (.panic p), fs⟩
  released : ∀ held ∈ f.guards, w.Gains w' (.released held.serial held.guard.name)
  /-- Nothing is done with the generators that control is inside of further below, and with those that
  control is outside of. -/
  spared : ∀ g ∈ S, g < w.generators.size → g ∈ chain fs ∨ (w.generator g).running = false →
    (w'.generator g).handles = 0 ∨ (w'.generator g).body = (w.generator g).body
  left : ∀ g, f = .driving g → ∃ size, (w'.generator g).body = { (w.generator g).body with
    running := false, payloadHeld := false, fiber := some ⟨size, .over⟩ }

variable {S : List GeneratorId}

/-- A frame that releases nothing is left at once. -/
theorem passes_at_once (hf : f.guards = []) (hentered : f.entered? = none)
    (hleave : leave w (.panic p) (f :: fs) = ⟨w, .unwind (.panic p), fs⟩) :
    Passes P p S f fs w w where
  within := .move (List.suffix_cons f fs) nofun (hleave ▸ .refl _)
  released held hheld := by simp [hf] at hheld
  spared _ _ _ _ := .inr rfl
  left g hg := by
    subst hg
    cases hentered

theorem passes_driving (hlt : g < w.generators.size) (hg : g ∉ chain fs)
    (hinside : (w.generator g).Inside) :
    Passes P p S (.driving g) fs w (leaveProducer w g) where
  within := .move (List.suffix_cons _ fs) nofun (.refl _)
  released _ hheld := by cases hheld
  spared k _ _ hout := by
    refine .inr ?_
    rw [leaveProducer, World.generator_modify_of_ne ?_]
    rintro rfl
    rcases hout with hmem | hrun
    · exact hg hmem
    · cases hrun.symm.trans hinside.running
  left k hk := by
    cases hk
    obtain ⟨size, hf⟩ := hinside.entered
    refine ⟨size, ?_⟩
    rw [leaveProducer, World.generator_modify_self hlt]
    simp [Generator.body, hf]

/-- A frame that has something to release is left when that has been released. -/
theorem passes_release (hm : Reachable P ⟨w, .unwind (.panic p), f :: fs⟩)
    (hcalm : Calm P p S base ⟨w, .unwind (.panic p), f :: fs⟩) (hbase : base <:+ fs)
    (hentered : f.entered? = none)
    (hframes : .unwinding (.panic p) :: fs <:+ (leave w (.panic p) (f :: fs)).frames)
    (hguards : ∀ held ∈ f.guards, ∀ w', Within P (.unwinding (.panic p) :: fs)
      (leave w (.panic p) (f :: fs)) ⟨w', .answer .unit, .unwinding (.panic p) :: fs⟩ →
      w.Gains w' (.released held.serial held.guard.name)) :
    ∃ w', Passes P p S f fs w w' := by
  have hfirst {fs' : List (Frame C)} (hfs : fs' <:+ f :: fs) :
      Within P fs' ⟨w, .unwind (.panic p), f :: fs⟩ (leave w (.panic p) (f :: fs)) :=
    .move hfs nofun (.refl _)
  have hbegun := hfirst (hbase.trans (List.suffix_cons f fs))
  obtain ⟨w', hback⟩ := hcalm.released w f fs (.refl _) hbase (List.suffix_refl _) hframes
  refine ⟨w', (hfirst (List.suffix_cons f fs)).trans (hback.under.trans (.move ?_ ?_ (.refl _))),
    fun held hheld => hguards held hheld w' hback, fun g hg hlt hout => ?_, ?_⟩
  · exact List.suffix_cons _ fs
  · exact fun _ _ => List.cons_ne_self _ _
  · have hm₁ : Reachable P (leave w (.panic p) (f :: fs)) := hm.move
    have hbody : ((leave w (.panic p) (f :: fs)).world.generator g).body = (w.generator g).body := by
      refine body_next_of_stays (P := P) hm.sound hlt ?_ nofun nofun
      show f.entered? ≠ some g
      rw [hentered]
      nofun
    have hrun : ((leave w (.panic p) (f :: fs)).world.generator g).running =
        (w.generator g).running := by
      have h := congrArg Generator.running hbody
      exact h
    have hunwinding : base <:+ .unwinding (.panic p) :: fs := hbase.trans (List.suffix_cons _ fs)
    rcases body_of_within (f := .unwinding (.panic p)) id rfl hm₁ hback
      (Nat.lt_of_lt_of_le hlt (size_le_next (P := P) ⟨w, .unwind (.panic p), f :: fs⟩))
      (hrun ▸ hout) (fun m₁ t hwithin hfs hcontrol ht => hcalm.untouched m₁ t g
        (hbegun.trans (hwithin.of_suffix hunwinding)) (hunwinding.trans hfs) hcontrol ht hg)
      with h0 | hsame
    · exact .inl h0
    · exact .inr (hsame.trans hbody)
  · rintro g rfl
    cases hentered

/-- A panic leaves every frame that lets it through. -/
theorem exists_passes (hm : Reachable P ⟨w, .unwind (.panic p), f :: fs⟩) (hf : f.LetsThrough)
    (hcalm : Calm P p S base ⟨w, .unwind (.panic p), f :: fs⟩) (hbase : base <:+ fs) :
    ∃ w', Passes P p S f fs w w' := by
  have hm₁ : Reachable P (leave w (.panic p) (f :: fs)) := hm.move
  cases f with
  | scope s =>
    refine passes_release hm hcalm hbase rfl (List.suffix_refl _) fun held hheld w' hback => ?_
    cases s with
    | guard first =>
      have hback : Within P _ ⟨w, .task (.release [first]), _⟩ _ := hback.of_ne nofun
      exact gains_of_release hm₁.move hback hheld
    | generator | iterator => cases hheld
  | closure captures =>
    refine passes_release hm hcalm hbase rfl (List.suffix_refl _) fun held hheld w' hback => ?_
    exact gains_of_release hm₁ hback hheld
  | driving g =>
    have hrest : Rest (Coroutine.marks (.driving g :: fs)) g (w.generator g) := hm.sound.rest rfl
    obtain ⟨hinside, -⟩ := hrest.inside (by simp)
    obtain ⟨κ, hκ, -⟩ := hm.sound.order
    have hnodup := hκ.chain_nodup
    exact ⟨_, passes_driving (w.lt_size_of_started hinside.started)
      (List.nodup_cons.mp hnodup).1 hinside⟩
  | switching =>
    exact passes_release hm hcalm hbase rfl (suffix_nameFiber ..) nofun
  | calling catchesPanics =>
    cases catchesPanics with
    | true => exact hf.elim
    | false => exact ⟨w, passes_at_once rfl rfl rfl⟩
  | pulling | reporting | closing => exact ⟨w, passes_at_once rfl rfl rfl⟩
  | viewing | holding => exact passes_release hm hcalm hbase rfl (List.suffix_refl _) nofun
  | pullingNamed => exact passes_release hm hcalm hbase rfl (suffix_nameIterator ..) nofun
  | _ => exact hf.elim

/-- What becomes of a generator of `S` while the panic goes through the frames `above`. -/
structure Fate (above : List (Frame C)) (g : GeneratorId) (w w' : World C) : Prop where
  outside : (w.generator g).running = false →
    (w'.generator g).handles = 0 ∨ (w'.generator g).body = (w.generator g).body
  left : g ∈ chain above → (w'.generator g).handles = 0 ∨
    ∃ size, (w'.generator g).body = { (w.generator g).body with
      running := false, payloadHeld := false, fiber := some ⟨size, .over⟩ }

theorem fate_cons {above : List (Frame C)} {w₁ : World C}
    (hf : f.LetsThrough) (hpasses : Passes P p S f (above ++ base) w w₁)
    (hfate : Fate above g w₁ w') (hg : g ∈ S) (hlt : g < w.generators.size)
    (hunheld : (w₁.generator g).handles = 0 → (w'.generator g).handles = 0) :
    Fate (f :: above) g w w' where
  outside hrun := by
    rcases hpasses.spared g hg hlt (.inr hrun) with h0 | hsame
    · exact .inl (hunheld h0)
    · have hrun₁ : (w₁.generator g).running = (w.generator g).running := by
        have h := congrArg Generator.running hsame
        exact h
      rcases hfate.outside (hrun₁.trans hrun) with h0 | hsame'
      · exact .inl h0
      · exact .inr (hsame'.trans hsame)
  left hmem := by
    by_cases hdriving : f = .driving g
    · obtain ⟨size, hleft⟩ := hpasses.left g hdriving
      have hrun₁ : (w₁.generator g).running = false := by
        have h := congrArg Generator.running hleft
        exact h
      rcases hfate.outside hrun₁ with h0 | hsame
      · exact .inl h0
      · exact .inr ⟨size, hsame.trans hleft⟩
    · have hmem : g ∈ chain above := by
        cases f with
        | driving k =>
          rcases List.mem_cons.mp hmem with rfl | hmem
          · exact absurd rfl hdriving
          · exact hmem
        | destroying => exact hf.elim
        | _ => exact hmem
      have hmem' : g ∈ chain (above ++ base) := by
        rw [chain, List.filterMap_append]
        exact List.mem_append_left _ hmem
      rcases hpasses.spared g hg hlt (.inl hmem') with h0 | hsame
      · exact .inl (hunheld h0)
      · rw [← hsame]
        exact hfate.left hmem

/-- A panic goes through all frames that let it through. -/
theorem goes_through {above : List (Frame C)} (hm : Reachable P ⟨w, .unwind (.panic p), above ++ base⟩)
    (hthrough : ∀ f ∈ above, f.LetsThrough)
    (hcalm : Calm P p S base ⟨w, .unwind (.panic p), above ++ base⟩) :
    ∃ w', Within P base ⟨w, .unwind (.panic p), above ++ base⟩ ⟨w', .unwind (.panic p), base⟩ ∧
      (∀ f ∈ above, ∀ held ∈ f.guards, w.Gains w' (.released held.serial held.guard.name)) ∧
      ∀ g ∈ S, g < w.generators.size → Fate above g w w' := by
  induction above generalizing w with
  | nil =>
    refine ⟨w, .refl _, nofun, fun g _ _ => ⟨fun _ => .inr rfl, nofun⟩⟩
  | cons f above ih =>
    have hbase : base <:+ above ++ base := List.suffix_append _ _
    obtain ⟨w₁, hpasses⟩ := exists_passes hm (hthrough f (.head _)) hcalm hbase
    have hwithin := hpasses.within.of_suffix hbase
    have hm₁ := hm.leads hwithin.leads
    obtain ⟨w', hrest, hreleased, hfates⟩ := ih hm₁ (fun k hk => hthrough k (.tail _ hk))
      (hcalm.within hwithin (List.suffix_cons _ _))
    have hhistory := history_of_leads hm hwithin.leads
    have hhistory' := history_of_leads hm₁ hrest.leads
    refine ⟨w', hwithin.trans hrest, fun k hk held hheld => ?_, fun g hg hlt => ?_⟩
    · rcases List.mem_cons.mp hk with rfl | hk
      · exact (hpasses.released held hheld).later hhistory'
      · exact (hreleased k hk held hheld).earlier hhistory
    · have hlt₁ := Nat.lt_of_lt_of_le hlt (size_le_of_leads hwithin.leads)
      exact fate_cons (hthrough f (.head _)) hpasses (hfates g hg hlt₁) hg hlt
        (unheld_of_leads hm₁ hrest.leads hlt₁)

theorem body_of_between (hm : Reachable P m) (h : Between P g m m')
    (hg : g < m.world.generators.size) (hrun : (m.world.generator g).running = false) :
    g < m'.world.generators.size ∧
      (m'.world.generator g).body = (m.world.generator g).body := by
  induction h with
  | refl => exact ⟨hg, rfl⟩
  | @move m' h hop ih =>
    have hrun' : (m'.world.generator g).running = false := by
      have h := congrArg Generator.running ih.2
      exact h.trans hrun
    exact ⟨Nat.lt_of_lt_of_le ih.1 (size_le_next m'),
      (body_next (hm.between h).sound ih.1 hrun' hop).trans ih.2⟩
  | again _ _ _ ih => exact ih

/-- What a panic leaves of a generator whose producer it went through. -/
structure Deserted (g : GeneratorId) (w w' : World C) : Prop where
  running : (w'.generator g).running = false
  status : (w'.generator g).status = .running
  slots : (w'.generator g).SlotsEmpty
  dead : (w'.generator g).Dead
  cleanup : (w'.generator g).cleanup.isSome
  payload : (w'.generator g).payload.isSome
  account : (w'.generator g).account = (w.generator g).account

theorem deserted_of_fate {above : List (Frame C)} (h : Fate above g w w') (hg : g ∈ chain above)
    (hinside : (w.generator g).Inside) (hslots : (w.generator g).SlotsEmpty)
    (hheld : 0 < (w'.generator g).handles) : Deserted g w w' := by
  obtain ⟨size, hbody⟩ := (h.left hg).resolve_left (Nat.ne_of_gt hheld)
  have hfield {α : Type} (field : Generator C → α)
      (hfield : ∀ x : Generator C, field x.body = field x) :
      field (w'.generator g) = field { (w.generator g).body with
        running := false, payloadHeld := false, fiber := some ⟨size, .over⟩ } := by
    rw [← hfield, hbody]
  have hstarted := hinside.started
  constructor
  · exact hfield (·.running) fun _ => rfl
  · exact (hfield (·.status) fun _ => rfl).trans hstarted.status
  · exact ⟨(hfield (·.value) fun _ => rfl).trans hslots.value,
      (hfield (·.error) fun _ => rfl).trans hslots.error,
      (hfield (·.outcome) fun _ => rfl).trans hslots.outcome⟩
  · exact ⟨size, hfield (·.fiber) fun _ => rfl⟩
  · exact (hfield (·.cleanup.isSome) fun _ => rfl).trans hstarted.cleanup
  · exact (hfield (·.payload.isSome) fun _ => rfl).trans hstarted.payload
  · exact hfield Generator.account fun _ => rfl

/-- Control is inside the producers of all generators that the frames belong to, if a panic can go
through these frames. -/
theorem inside_of_mem_chain {above : List (Frame C)} (hthrough : ∀ f ∈ above, f.LetsThrough)
    (hg : g ∈ chain above) : .inside g ∈ Coroutine.marks above := by
  obtain ⟨f, hf, hentered⟩ := List.mem_filterMap.mp hg
  refine List.mem_filterMap.mpr ⟨f, hf, ?_⟩
  have hf := hthrough f hf
  cases f with
  | driving k =>
    cases hentered
    rfl
  | destroying => exact hf.elim
  | _ => cases hentered

/-- The panic `p`, which was raised on top of the frames `above`, leaves them in the world `w'` for
the caller that waits with the frames `base`. -/
structure Propagated (P : Program C) (p : Panic) (above base : List (Frame C)) (m : Machine C)
    (w' : World C) : Prop where
  /-- The operation of the caller is left with the same panic. -/
  unwinds : Within P base m ⟨w', .unwind (.panic p), base⟩
  /-- All guards on the stacks on the way have been released. -/
  released : ∀ f ∈ above, ∀ held ∈ f.guards,
    m.world.Gains w' (.released held.serial held.guard.name)
  deserted : ∀ g ∈ chain above, 0 < (w'.generator g).handles → Deserted g m.world w'
  /-- The next operation on a generator on the way finds out. -/
  recovers : ∀ g ∈ chain above, 0 < (w'.generator g).handles → ∀ w t fs,
    Between P g ⟨w', .unwind (.panic p), base⟩ ⟨w, .task t, fs⟩ → t.asks? = some g →
    Recovers P g w t fs

/-- A panic of a producer comes out of the operation of the outermost caller, however many producers
it goes through on the way, and their generators recover from it one by one. -/
theorem propagated_of_reachable {c : C} {message : String} {above : List (Frame C)}
    (hm : Reachable P ⟨w, .code c, above ++ base⟩) (hpanic : P.next c = .panic message)
    (hthrough : ∀ f ∈ above, f.LetsThrough)
    (hcalm : Calm P (.text message) (chain above) base ⟨w, .code c, above ++ base⟩) :
    ∃ w', Propagated P (.text message) above base ⟨w, .code c, above ++ base⟩ w' := by
  have hnext : next P ⟨w, .code c, above ++ base⟩ =
      ⟨w, .unwind (.panic (.text message)), above ++ base⟩ := by
    show grant w (above ++ base) (P.next c) = _
    rw [hpanic]
    rfl
  have hfirst : Within P base ⟨w, .code c, above ++ base⟩
      ⟨w, .unwind (.panic (.text message)), above ++ base⟩ :=
    .move (List.suffix_append _ _) nofun (hnext ▸ .refl _)
  have hm₁ := hm.leads hfirst.leads
  obtain ⟨w', hrest, hreleased, hfates⟩ := goes_through hm₁ hthrough
    (hcalm.within hfirst (List.suffix_refl _))
  have hdeserted (g : GeneratorId) (hg : g ∈ chain above) (hheld : 0 < (w'.generator g).handles) :
      g < w.generators.size ∧ Deserted g w w' := by
    have hmark : .inside g ∈ Coroutine.marks (above ++ base) := by
      rw [Coroutine.marks, List.filterMap_append]
      exact List.mem_append_left _ (inside_of_mem_chain hthrough hg)
    have hrest : Rest (Coroutine.marks (above ++ base)) g (w.generator g) := hm.sound.rest rfl
    obtain ⟨hinside, hslots⟩ := hrest.inside hmark
    have hlt := w.lt_size_of_started hinside.started
    exact ⟨hlt, deserted_of_fate (hfates g hg hlt) hg hinside hslots hheld⟩
  refine ⟨w', hfirst.trans hrest, hreleased, fun g hg hheld => (hdeserted g hg hheld).2, ?_⟩
  intro g hg hheld w₁ t fs hbetween ht
  obtain ⟨hlt, hd⟩ := hdeserted g hg hheld
  have hback := hm₁.leads hrest.leads
  obtain ⟨-, hbody⟩ := body_of_between hback hbetween
    (Nat.lt_of_lt_of_le hlt (size_le_of_leads hrest.leads)) hd.running
  obtain ⟨size, hf⟩ := hd.dead
  refine recovers_of_asks (hback.between hbetween) ht ?_ ?_ ⟨size, ?_⟩
  · exact (congrArg Generator.running hbody).trans hd.running
  · exact (congrArg Generator.status hbody).trans hd.status
  · exact (congrArg Generator.fiber hbody).trans hf

/-- The code of two producers: one pulls on the iterator called `i`, and the other one panics. -/
inductive Nesting
  | pull
  | panic

def nesting : Program Nesting where
  next
    | .pull => .call (.pull "i" 1) false fun _ => .pull
    | .panic => .panic "alarm"

/-- A panic goes through two producers, and the guard that the inner one has captured is released. -/
theorem propagated_of_nesting : ∃ (m : Machine Nesting) (above base : List (Frame Nesting))
    (w : World Nesting), Propagated nesting (.text "alarm") above base m w ∧
      chain above = [0, 1] ∧ 0 < (w.generator 0).handles ∧ 0 < (w.generator 1).handles ∧
      m.world.Gains w (.released 0 "guard") := by
  have hinner : Reachable nesting
      ⟨{ stackMemory := minStackSize }, .task (.step
        (.create "g" ⟨"inner", minStackSize, none, [⟨"guard", []⟩], [], none, .panic⟩)), []⟩ :=
    .start _ _
  have hiterator := (hinner.leads (leads_run nesting 2 _)).again (.iterate "g" "i" true)
    ⟨rfl, .inl ⟨_, rfl⟩⟩
  have houter := (hiterator.leads (leads_run nesting 2 _)).again
    (.create "g" ⟨"outer", minStackSize, none, [], [], none, .pull⟩) ⟨rfl, .inl ⟨_, rfl⟩⟩
  have hresume := (houter.leads (leads_run nesting 2 _)).again (.resume "g" none)
    ⟨rfl, .inl ⟨_, rfl⟩⟩
  have hpanic : Reachable nesting ⟨_, .code .panic,
      [.closure [⟨0, ⟨"guard", []⟩⟩], .driving 0, .pullingNamed "i" 0 0 [],
        .calling false fun _ => .pull, .closure [], .driving 1] ++ [.reporting, .holding 1]⟩ :=
    hresume.leads (leads_run nesting 9 _)
  obtain ⟨w, hw⟩ := propagated_of_reachable hpanic rfl (by simp [Frame.LetsThrough]) {
    released := by
      intro w f fs hwithin hbase hfs hreleases
      obtain ⟨n, hn, hrun⟩ := hwithin.leads.exists_run 17 rfl
      interval_cases n <;> cases hrun
      -- the frames that release something are the two closures and the pull on the iterator
      all_goals first
        | exact absurd hbase.length_le (by decide)
        | exact absurd hreleases.length_le (by decide)
        | skip
      · exact ⟨_, .move (List.suffix_refl _) nofun (.move (List.suffix_refl _) nofun (.refl _))⟩
      · exact ⟨_, .refl _⟩
      · exact ⟨_, .move (List.suffix_refl _) nofun (.refl _)⟩
    untouched := by
      intro m' t g hwithin hbase hcontrol ht hg
      obtain ⟨n, hn, hrun⟩ := hwithin.leads.exists_run 17 rfl
      subst hrun
      interval_cases n <;> cases hcontrol <;> cases ht }
  have hrun := hw.unwinds.leads.exists_run 17 rfl
  obtain ⟨n, hn, hrun⟩ := hrun
  refine ⟨_, _, _, w, hw, rfl, ?_⟩
  interval_cases n <;> cases hrun
  exact ⟨by decide, by decide, hw.released _ (.head _) _ (.head _)⟩

end Machine

end Coroutine
