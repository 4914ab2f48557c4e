import Coroutine.Proofs.Shutdown

/-! Draws: calls on a generator that hand nothing in, be they pulls of iterators or made through handles.
Main statements: whoever draws, and whatever happens in between, the draws go on one after another with
the one producer; if the same code comes to the same, they come back with the same. -/

namespace Coroutine

variable {C : Type}

/-- Where a producer stands for the next call. -/
inductive Source (C : Type)
  /-- It has not run. Its code is gone if there was no memory for its stack. -/
  | unused (c : Option C)
  | suspended (k : Except Exception (Option Value) → C)
  /-- A panic has left it. -/
  | broken
  | finished

/-- The code that a call goes on with that hands nothing in. -/
def Source.code? : Source C → Option C
  | unused c => c
  | suspended k => some (k (.ok none))
  | broken | finished => none

/-- Where a producer stands that has come to a reaction. -/
def Reaction.source : Reaction C → Source C
  | yields _ k => .suspended k
  | ends _ => .finished

/-- Where the producer of the generator stands. -/
def Generator.source (x : Generator C) : Source C :=
  match x.status, x.fiber with
  | .unused, _ => .unused (x.entry.map Closure.code)
  | .running, some ⟨_, .suspended k _ _⟩ => .suspended k
  | .running, _ => .broken
  | .finished, _ => .finished

/-- What a caller gets, if it is an answer of an operation that may run a producer. -/
def Control.result? : Control C → Option (Except OpError (Progress Value Value))
  | answer (.progress r) => some r
  | _ => none

/-- A call that hands nothing in: the world that it is made in, the frames that wait for it, and what
it comes back with, unless a panic leaves it. -/
structure Draw (C : Type) where
  world : World C
  frames : List (Frame C)
  result : Option (Except OpError (Progress Value Value))

namespace Generator

variable {x y : Generator C}

theorem source_of_unused (hs : x.status = .unused) :
    x.source = .unused (x.entry.map Closure.code) := by
  simp [source, hs]

theorem source_of_finished (hs : x.status = .finished) : x.source = .finished := by
  simp [source, hs]

theorem source_of_suspended {size : Nat} {k : Except Exception (Option Value) → C}
    {scopes : List (Scope C)} {captures : List (HeldGuard C)} (hs : x.status = .running)
    (hf : x.fiber = some ⟨size, .suspended k scopes captures⟩) : x.source = .suspended k := by
  simp [source, hs, hf]

theorem source_of_dead (hs : x.status = .running) (hdead : x.Dead) : x.source = .broken := by
  obtain ⟨size, hf⟩ := hdead
  simp [source, hs, hf]

theorem finished_of_source (h : x.source = .finished) : x.status = .finished := by
  cases hs : x.status with
  | unused => cases (source_of_unused hs).symm.trans h
  | running =>
    simp only [source, hs] at h
    split at h <;> simp_all
  | finished => rfl

theorem not_finished_of_source {c : Option C} (h : x.source = .unused c) : x.status ≠ .finished :=
  fun hs => by cases (source_of_finished hs).symm.trans h

/-- The code that a call goes on with is that of the coroutine that the generator amounts to. -/
theorem exists_routine {c : C} (hc : x.source.code? = some c) :
    ∃ s, x.routine? = some s ∧ ∀ name, s.call name (.resume none) = .runs c := by
  unfold source at hc
  split at hc
  · next hs =>
    obtain ⟨entry, hentry, rfl⟩ := Option.map_eq_some_iff.mp hc
    exact ⟨.unused entry.code, by simp [routine?, hs, hentry], fun _ => rfl⟩
  · next hs hf =>
    cases hc
    exact ⟨.suspended _, by simp [routine?, hs, hf], fun _ => rfl⟩
  · cases hc
  · cases hc

/-- It has not run and never will, or it has ended. -/
def Barren (x : Generator C) : Prop := x.status = .unused ∧ x.entry = none ∨ x.status = .finished

theorem Barren.source (h : x.Barren) : x.source = .unused none ∨ x.source = .finished := by
  rcases h with ⟨hs, hentry⟩ | hs
  · exact .inl (by rw [source_of_unused hs, hentry]; rfl)
  · exact .inr (source_of_finished hs)

end Generator

namespace Draw

variable {P : Program C} {g : GeneratorId} {d : Draw C} {m : Machine C} {c : C} {ρ ρ' : Reaction C}

/-- The state in which the call is made. -/
def site (g : GeneratorId) (d : Draw C) : Machine C := ⟨d.world, .task (.resume g none), d.frames⟩

/-- The call is over in `m`, with its result. -/
structure Ends (P : Program C) (g : GeneratorId) (d : Draw C) (m : Machine C) : Prop where
  within : Machine.Within P d.frames (d.site g) m
  back : Machine.Over (d.site g) m
  result : m.control.result? = d.result

/-- The producer comes to the reaction in the call. -/
def Comes (P : Program C) (g : GeneratorId) (d : Draw C) (ρ : Reaction C) : Prop :=
  ∃ m, Machine.Within P d.frames (d.site g) m ∧ Machine.Reacts P g d.frames m ρ

/-- The call runs the code `c` on the stack of the producer. -/
def Enters (P : Program C) (g : GeneratorId) (d : Draw C) (c : C) : Prop :=
  ∃ w scopes captures, Machine.Within P d.frames (d.site g)
    ⟨w, .code c, stackFiber scopes captures (.driving g :: d.frames)⟩

/-- The call runs the code `c` on the stack of the producer, which comes to the reaction `ρ`. -/
def Runs (P : Program C) (g : GeneratorId) (d : Draw C) (c : C) (ρ : Reaction C) : Prop :=
  ∃ w scopes captures m, Machine.Within P d.frames (d.site g)
      ⟨w, .code c, stackFiber scopes captures (.driving g :: d.frames)⟩ ∧
    Machine.Within P d.frames ⟨w, .code c, stackFiber scopes captures (.driving g :: d.frames)⟩ m ∧
    Machine.Reacts P g d.frames m ρ

theorem Runs.comes (h : d.Runs P g c ρ) : d.Comes P g ρ := by
  obtain ⟨w, scopes, captures, m, henters, hcomes, hreacts⟩ := h
  exact ⟨m, henters.trans hcomes, hreacts⟩

end Draw

namespace Machine

/-- What a call that hands nothing in does with the producer of `g`: where it stands before and
after. -/
inductive Pours (P : Program C) (g : GeneratorId) (d : Draw C) : Source C → Source C → Prop
  /-- Its code goes on, and what it comes to is what the caller gets. -/
  | reacts {s : Source C} {c : C} {ρ : Reaction C} : s.code? = some c → d.Runs P g c ρ →
      d.result = some ρ.result → Pours P g d s ρ.source
  /-- A panic leaves it. -/
  | panicked {s : Source C} {c : C} : s.code? = some c → d.Enters P g c → d.result = none →
      Pours P g d s .broken
  /-- The cleanup panics. -/
  | uncleaned {s : Source C} {steps : List (Step C)} {message : String} :
      (d.world.generator g).cleanup = some (.callback steps (some message)) → d.result = none →
      Pours P g d s .finished
  /-- There is no stack for it. -/
  | refused {c : Option C} :
      stackSizeInRange (d.world.generator g).stackSize = false ∨ c = none →
      d.result = some (.error (.fiberAllocation (d.world.generator g).name
        (d.world.generator g).stackSize)) →
      Pours P g d (.unused c) (.unused c)
  /-- There is no memory for its stack. -/
  | starved {c : Option C} {s : Source C} :
      stackSizeInRange (d.world.generator g).stackSize = true →
      d.world.stackMemory < (d.world.generator g).stackSize →
      d.result = some (.error (.fiberAllocation (d.world.generator g).name
        (d.world.generator g).stackSize)) →
      s = .unused none ∨ s = .finished → Pours P g d (.unused c) s
  | exhausted {s : Source C} : s = .broken ∨ s = .finished →
      d.result = some (.error (.exhausted (d.world.generator g).name)) → Pours P g d s .finished

/-- What calls that hand nothing in do one after another. -/
inductive Stream (P : Program C) (g : GeneratorId) : Source C → List (Draw C) → Source C → Prop
  | nil (s : Source C) : Stream P g s [] s
  | cons {s s' s'' : Source C} {d : Draw C} {ds : List (Draw C)} : Pours P g d s s' →
      Stream P g s' ds s'' → Stream P g s (d :: ds) s''

/-- Sessions get from one state to another, and all that is done on `g` meanwhile are these calls. -/
inductive Draws (P : Program C) (g : GeneratorId) : Machine C → List (Draw C) → Machine C → Prop
  | nil {m m' : Machine C} : Between P g m m' → Draws P g m [] m'
  | cons {m m₁ m' : Machine C} {d : Draw C} {ds : List (Draw C)} : Between P g m (d.site g) →
      d.Ends P g m₁ → Draws P g m₁ ds m' → Draws P g m (d :: ds) m'

variable {P : Program C} {δ : GeneratorId → Prop} {g : GeneratorId} {d : Draw C} {w w₁ : World C}
  {fs : List (Frame C)} {m m₁ m' : Machine C} {c : C} {ρ ρ' : Reaction C}

/-! ### Within one call -/

/-- What is over comes after every state before it. -/
theorem Within.rest (h : Within P fs m m₁) (h' : Within P fs m m') (hover : Over ⟨w, .stuck, fs⟩ m')
    (hfs : fs <:+ m₁.frames) : Within P fs m₁ m' := by
  rcases h.compare h' with h | h
  · exact h
  cases hover with
  | answered w' a =>
    rw [h.eq_answer]
    exact .refl _
  | unwound w' u =>
    rw [h.eq_of_suffix hfs]
    exact .refl _

theorem Reacts.back (h : Reacts P g fs m ρ) : Back P (.driving g) fs m := by
  cases h with
  | yields hP => exact .yields _ _ _ hP
  | ends => exact .answers _ _

theorem Reacts.unique (h : Reacts P g fs m ρ) (h' : Reacts P g fs m ρ') : ρ = ρ' := by
  generalize hm : m = m₁ at h'
  have hcontrol := congrArg Machine.control hm
  cases h with
  | yields hP =>
    cases h' with
    | yields hP' =>
      cases hcontrol
      cases hP.symm.trans hP'
      rfl
    | ends => cases hcontrol
  | ends =>
    cases h' with
    | yields => cases hcontrol
    | ends =>
      cases hcontrol
      rfl

/-- A producer comes to one reaction in a call. -/
theorem reaction_unique (hm : Reachable P m) (h : Within P fs m m₁) (h' : Within P fs m m')
    (hρ : Reacts P g fs m₁ ρ) (hρ' : Reacts P g fs m' ρ') : ρ = ρ' := by
  -- after the reaction that comes first, control is not on the stack of the producer any more
  have hsame {m₁ m' : Machine C} {ρ ρ' : Reaction C} (hm₁ : Reachable P m₁)
      (hρ : Reacts P g fs m₁ ρ) (hρ' : Reacts P g fs m' ρ') (h : Within P fs m₁ m') : m₁ = m' := by
    by_contra hne
    have hmoved := h.of_ne hne
    have hsound := hm₁.sound
    cases hρ with
    | yields hP =>
      obtain ⟨w₁, w₂, hyield, hsuspended, -⟩ := next_of_yield hsound hP
      rw [hyield] at hmoved
      have hmoved := hmoved.of_ne fun heq => hρ'.back.frames_ne (heq ▸ rfl)
      rw [hsuspended] at hmoved
      exact hρ'.back.frames_ne (hmoved.eq_answer ▸ rfl)
    | @ends w₀ r =>
      obtain ⟨w₁, w₂, hend, hterminated, hdead⟩ := next_of_end (P := P) hsound
      rw [hend] at hmoved
      have hmoved := hmoved.of_ne fun heq => hρ'.back.frames_ne (heq ▸ rfl)
      rw [hterminated] at hmoved
      have hto : Leads P ⟨w₀, .answer (.outcome r), .driving g :: fs⟩ ⟨w₂, .task (.finalize g),
          .keeping (.progress (Reaction.ends r : Reaction C).result) :: fs⟩ :=
        .step hend (.step hterminated (.refl _))
      have hfinalize := hm₁.leads hto
      have hat : At _ (Coroutine.marks _) g (w₂.generator g) := hfinalize.sound.shape g
      obtain ⟨-, -, hfinished, -⟩ := hat.phase rfl (by decide)
      have hended := status_of_leads hfinalize hmoved.leads (w₂.lt_size_of_dead hdead) hfinished
      exact not_inside_of_finished (hfinalize.leads hmoved.leads).sound hended hρ'.back.inside
  rcases h.compare h' with hbetween | hbetween
  · obtain rfl := hsame (hm.leads h.leads) hρ hρ' hbetween
    exact hρ.unique hρ'
  · obtain rfl := hsame (hm.leads h'.leads) hρ' hρ hbetween
    exact hρ.unique hρ'

/-- What a call that runs the producer comes back with once the producer has come to a reaction: with
the reaction, unless the cleanup panics. -/
theorem over_of_reacts (hm : Reachable P m) (hρ : Reacts P g fs m ρ) (h : Within P fs m m')
    (hover : Over ⟨w, .stuck, fs⟩ m') :
    (∃ w', m' = ⟨w', .answer (.progress ρ.result), fs⟩) ∨
      ∃ r w' p, ρ = .ends r ∧ m' = ⟨w', .unwind p, fs⟩ := by
  have hsound := hm.sound
  have hm' : m'.frames = fs := hover.frames
  have hmoved : Within P fs (m.next P) m' :=
    h.of_ne fun heq => hρ.back.frames_ne ((congrArg Machine.frames heq).trans hm')
  cases hρ with
  | yields hP =>
    obtain ⟨w₁, w₂, hyield, hsuspended, -⟩ := next_of_yield hsound hP
    rw [hyield] at hmoved
    have hanswer := hmoved.of_task_over (hover.of_frames rfl) hsuspended
    exact .inl ⟨w₂, hanswer.eq_answer⟩
  | @ends w₀ r =>
    obtain ⟨w₁, w₂, hend, hterminated, hdead⟩ := next_of_end (P := P) hsound
    rw [hend] at hmoved
    have hkept := hmoved.of_task_over (hover.of_frames rfl) hterminated
    have hto : Leads P ⟨w₀, .answer (.outcome r), .driving g :: fs⟩ ⟨w₂, .task (.finalize g),
        .keeping (.progress (Reaction.ends r : Reaction C).result) :: fs⟩ :=
      .step hend (.step hterminated (.refl _))
    obtain ⟨hfinalized, -, -⟩ :=
      finalized_of_keeping (hm.leads hto) (w₂.lt_size_of_dead hdead) hkept hm'
    cases hfinalized with
    | answered w' => exact .inl ⟨w', rfl⟩
    | panicked w' => exact .inr ⟨r, w', _, rfl, rfl⟩

/-- A call that is over and has come to the code of the producer has gone one of three ways. -/
theorem pours_of_code {s : Source C} {scopes : List (Scope C)} {captures : List (HeldGuard C)}
    (hm : Reachable P (d.site g)) (h : d.Ends P g m) (hs : s.code? = some c)
    (henters : Within P d.frames (d.site g)
      ⟨w₁, .code c, stackFiber scopes captures (.driving g :: d.frames)⟩) :
    Pours P g d s (m.world.generator g).source := by
  have hm₁ := hm.leads henters.leads
  have hrest : Rest (Coroutine.marks _) g (w₁.generator g) := hm₁.sound.rest rfl
  obtain ⟨hinside, -⟩ := hrest.inside (marks_subset_of_suffix (suffix_stackFiber ..) (by simp))
  have hlt : g < w₁.generators.size := w₁.lt_size_of_started hinside.started
  have hover : Over ⟨d.world, .stuck, d.frames⟩ m := h.back.of_frames rfl
  have hwithin : Within P d.frames _ m :=
    henters.rest h.within hover (suffix_under_stackFiber ..)
  have hswitched := switched_of_driving hm₁ hlt (.refl _) (suffix_stackFiber ..) hwithin hover.frames
    (hover.of_frames rfl : Over ⟨w₁, .task (.drive g), d.frames⟩ m)
  have hend := hm.leads h.within.leads
  have hresult := h.result
  cases hswitched with
  | dead w' hdead =>
    obtain ⟨_, hactive⟩ := hinside.entered
    obtain ⟨_, hover⟩ := hdead
    cases hactive.symm.trans hover
  | @yielded w' w₂ c' v k size scopes' captures' hP hto _ hf =>
    have hidle := (hend.sound.rest (g := g) rfl).idle_of_parked ⟨_, _, _, _, hf⟩
    have hsource : (w'.generator g).source = (Reaction.yields v k).source :=
      Generator.source_of_suspended hidle.2 hf
    show Pours P g d s (w'.generator g).source
    rw [hsource]
    exact .reacts hs ⟨_, _, _, _, henters, hto, .yields hP⟩ hresult.symm
  | @ended w' w₂ r hto hspent =>
    have hsource : (w'.generator g).source = (Reaction.ends r : Reaction C).source :=
      Generator.source_of_finished hspent.status
    show Pours P g d s (w'.generator g).source
    rw [hsource]
    exact .reacts hs ⟨_, _, _, _, henters, hto, .ends⟩ hresult.symm
  | @panicked w' w₂ p hto =>
    have hm₂ := hm₁.leads hto.leads
    have hleft := (hto.rest hwithin hover (List.suffix_cons _ _)).of_ne (by simp)
    have hleft : Within P d.frames ⟨leaveProducer w₂ g, .unwind (.panic p), d.frames⟩ _ := hleft
    cases hleft.eq_of_unwind rfl
    obtain ⟨hinside, -⟩ := (hm₂.sound.rest (g := g) rfl).inside (by simp)
    obtain ⟨size, hactive⟩ := hinside.entered
    have hlt : g < w₂.generators.size := w₂.lt_size_of_started hinside.started
    have hsource : ((leaveProducer w₂ g).generator g).source = .broken := by
      rw [leaveProducer, World.generator_modify_self hlt]
      exact Generator.source_of_dead hinside.started.status ⟨size, by rw [hactive]; rfl⟩
    show Pours P g d s ((leaveProducer w₂ g).generator g).source
    rw [hsource]
    exact .panicked hs ⟨_, _, _, henters⟩ hresult.symm
  | @uncleaned w' _ steps message _ hcleanup _ hspent =>
    have hsite : (d.world.generator g).cleanup = some (.callback steps (some message)) := by
      obtain ⟨κ, hκ, rfl⟩ := hm.sound.order
      have hg := hm.sound.lt_size_of_operand hκ rfl
      obtain ⟨-, hsame | hnone⟩ := stays_of_later hm (.of_leads henters.leads) hg
      · exact hsame.symm.trans hcleanup
      · cases hnone.symm.trans hcleanup
    show Pours P g d s (w'.generator g).source
    rw [Generator.source_of_finished hspent.status]
    exact .uncleaned hsite hresult.symm

/-- The first call after a panic finalizes the generator. -/
theorem pours_of_dead (hm : Reachable P (d.site g)) (h : d.Ends P g m)
    (hs : (d.world.generator g).status = .running) (hdead : (d.world.generator g).Dead)
    (hto : Within P d.frames (d.site g) ⟨w₁, .task (.drive g), d.frames⟩)
    (hb : d.world.Becomes g (d.world.generator g) w₁) (hslots : (d.world.generator g).outcome = none) :
    Pours P g d .broken (m.world.generator g).source := by
  obtain ⟨size, hf⟩ := hdead
  have hlt : g < d.world.generators.size := d.world.lt_size_of_dead ⟨size, hf⟩
  have hover : Over ⟨d.world, .stuck, d.frames⟩ m := h.back.of_frames rfl
  obtain ⟨w₂, hdrive, hb₂⟩ := drive_over (w := w₁) (g := g) d.frames (by rw [hb.self]; exact hf)
  have hb₂ := hb.trans (hb.self ▸ hb₂)
  obtain ⟨w₃, hterminated, hb₃⟩ := terminated_running (w := w₂) (g := g) d.frames
    (by rw [hb₂.self]; exact hs) (hb₂.size ▸ hlt)
  rw [hb₂.self, resultOf_of_none hslots] at hterminated
  have hfinalize : Within P d.frames (d.site g) ⟨w₃, .task (.finalize g),
      .keeping (.progress (.error (.exhausted (d.world.generator g).name))) :: d.frames⟩ :=
    hto.trans (.of_task (List.suffix_refl _) hdrive
      (.of_task (List.suffix_refl _) hterminated (.refl _)))
  have hrest := hfinalize.rest h.within hover (List.suffix_cons _ _)
  have hm₃ := hm.leads hfinalize.leads
  obtain ⟨hfinalized, hspent, -⟩ := finalized_of_keeping hm₃
    (Nat.lt_of_lt_of_le hlt (size_le_of_leads hfinalize.leads)) hrest hover.frames
  have hresult := h.result
  rw [Generator.source_of_finished hspent.status]
  cases hfinalized with
  | answered w' => exact .exhausted (.inl rfl) hresult.symm
  | panicked w' hcleanup =>
    obtain ⟨-, hsame | hnone⟩ := stays_of_later hm (.of_leads hfinalize.leads) hlt
    · exact .uncleaned (hsame.symm.trans hcleanup) hresult.symm
    · cases hnone.symm.trans hcleanup

/-- A generator whose entry procedure has been lost never runs. -/
theorem Change.barren {x : Generator C} (h : Change P g m x) (hg : (m.world.generator g).Barren) :
    x.Barren := by
  have hkept (hs : x.status = (m.world.generator g).status)
      (hentry : (m.world.generator g).entry = none → x.entry = none) : x.Barren :=
    hg.imp (fun hunused => ⟨hs.trans hunused.1, hentry hunused.2⟩) hs.trans
  have hopen (hs : (m.world.generator g).status = .running) : x.Barren := by
    rcases hg with ⟨hunused, -⟩ | hfinished
    · cases hs.symm.trans hunused
    · cases hs.symm.trans hfinished
  cases h with
  | kept _ hx | dissolved _ _ _ hx | unstacked _ _ _ hx | unwound _ _ _ hx | released _ _ hx =>
    exact hkept hx.status hx.entry.trans
  | starved _ _ _ _ hx | emptied _ _ hx => exact hkept hx.status fun _ => hx.entry
  | started entry _ hunused hentry =>
    rcases hg with ⟨-, hnone⟩ | hfinished
    · cases hnone.symm.trans hentry
    · cases hunused.symm.trans hfinished
  | entered _ _ hrunning => exact hopen hrunning
  | parted _ _ _ _ hinside | left _ _ _ hinside => exact hopen hinside.started.status
  | finished _ _ hx => exact .inr hx.status

theorem barren_of_leads (h : Reachable P m) (hm : Leads P m m') (hg : g < m.world.generators.size)
    (hbarren : (m.world.generator g).Barren) : (m'.world.generator g).Barren := by
  induction hm with
  | refl => exact hbarren
  | move _ ih =>
    exact ih h.move (Nat.lt_of_lt_of_le hg (size_le_next _))
      ((change_next h.sound hg).barren hbarren)

/-- A call gets to the code that goes on with it if there is a stack for it. -/
theorem enters_of_code (hm : Reachable P (d.site g)) (hlt : g < d.world.generators.size)
    (hrun : (d.world.generator g).running = false) (hc : (d.world.generator g).source.code? = some c)
    (hstack : (d.world.generator g).status = .unused →
      stackSizeInRange (d.world.generator g).stackSize = true ∧
        (d.world.generator g).stackSize ≤ d.world.stackMemory) : d.Enters P g c := by
  have hsite : Reachable P ⟨d.world, .task (Call.task g (.resume none)), d.frames⟩ := hm
  obtain ⟨s, hroutine, hruns⟩ := Generator.exists_routine hc
  exact within_code hsite ⟨hlt, hrun, hroutine⟩ hstack (hruns _)

/-- A start for which there is no memory comes back with the failure, and the producer will never run. -/
theorem starved_of_start {entry : Closure C} (hm : Reachable P ⟨w, .task (.start g), fs⟩)
    (hlt : g < w.generators.size) (hs : (w.generator g).status = .unused)
    (hentry : (w.generator g).entry = some entry)
    (hrange : stackSizeInRange (w.generator g).stackSize = true)
    (hstarved : w.stackMemory < (w.generator g).stackSize)
    (h : Within P fs ⟨w, .task (.start g), fs⟩ m) (hover : Over ⟨w, .stuck, fs⟩ m) :
    ∃ w', m = ⟨w', .answer (startFailure (w.generator g)), fs⟩ ∧ (w'.generator g).Barren := by
  obtain ⟨w₁, hrelease, hb⟩ := start_outOfMemory fs hentry hrange hstarved hlt
  have hreleased := h.of_task_over (hover.of_frames rfl) hrelease
  have hto : Leads P ⟨w, .task (.start g), fs⟩ ⟨w₁, .task (.release entry.captures),
      .unwinding (.panic .outOfMemory) :: .catching (startFailure (w.generator g)) :: fs⟩ :=
    .step hrelease (.refl _)
  obtain ⟨w₂, rfl⟩ :=
    answered_of_catching (hm.leads hto) hreleased hover.frames (List.suffix_cons _ _)
  have hbarren : (w₁.generator g).Barren := by
    rw [hb.self]
    exact .inl ⟨hs, rfl⟩
  exact ⟨w₂, rfl, barren_of_leads (hm.leads hto) hreleased.leads
    (Nat.lt_of_lt_of_le hlt (size_le_of_leads hto)) hbarren⟩

/-- What the first call comes to. -/
theorem pours_of_start (hm : Reachable P (d.site g)) (h : d.Ends P g m)
    (hrun : (d.world.generator g).running = false) (hs : (d.world.generator g).status = .unused) :
    Pours P g d (d.world.generator g).source (m.world.generator g).source := by
  have hlt : g < d.world.generators.size := d.world.lt_size_of_status (by simp [hs])
  have hover : Over ⟨d.world, .stuck, d.frames⟩ m := h.back.of_frames rfl
  have hresult := h.result
  rw [Generator.source_of_unused hs]
  obtain ⟨w₁, hresume, hb, hmemory⟩ := resume_unused d.frames hrun hs
  have hstarted : Within P d.frames (d.site g) ⟨w₁, .task (.start g), d.frames⟩ :=
    .of_task (List.suffix_refl _) hresume (.refl _)
  have hrest := hstarted.rest h.within hover (List.suffix_refl _)
  by_cases hfails : stackSizeInRange (d.world.generator g).stackSize = false ∨
      (d.world.generator g).entry = none
  · have hfailed := start_failed (w := w₁) (g := g) d.frames (by rw [hb.self]; exact hfails)
    have hanswer := hrest.of_task_over (hover.of_frames rfl) hfailed
    obtain rfl := hanswer.eq_answer
    have hsource : (w₁.generator g).source =
        .unused ((d.world.generator g).entry.map Closure.code) := by
      rw [hb.self, Generator.source_of_unused hs]
    show Pours P g d _ (w₁.generator g).source
    rw [hsource]
    refine .refused (hfails.imp_right fun hnone => by rw [hnone]; rfl) (hresult.symm.trans ?_)
    rw [hb.self]
    rfl
  obtain ⟨hrange, hentry⟩ := not_or.mp hfails
  have hrange := Bool.eq_true_of_not_eq_false hrange
  obtain ⟨entry, hentry⟩ := Option.ne_none_iff_exists'.mp hentry
  by_cases hstarved : d.world.stackMemory < (d.world.generator g).stackSize
  · have hstart : Reachable P ⟨w₁, .task (.start g), d.frames⟩ := hm.leads hstarted.leads
    obtain ⟨w₂, rfl, hbarren⟩ := starved_of_start hstart (hb.size ▸ hlt) (by rw [hb.self]; exact hs)
      (by rw [hb.self]; exact hentry) (by rw [hb.self]; exact hrange)
      (by rw [hb.self, hmemory]; exact hstarved) hrest (hover.of_frames rfl)
    refine .starved hrange hstarved (hresult.symm.trans ?_) hbarren.source
    rw [hb.self]
    rfl
  · have hcode : ((d.world.generator g).source).code? = some entry.code := by
      rw [Generator.source_of_unused hs, hentry]
      rfl
    obtain ⟨w₂, scopes, captures, henters⟩ := enters_of_code hm hlt hrun hcode
      fun _ => ⟨hrange, Nat.le_of_not_lt hstarved⟩
    rw [← Generator.source_of_unused hs]
    exact pours_of_code hm h hcode henters

/-- What a call comes to that hands nothing in and is made outside of the producer. -/
theorem pours_of_ends (hm : Reachable P (d.site g)) (h : d.Ends P g m)
    (hrun : (d.world.generator g).running = false) :
    Pours P g d (d.world.generator g).source (m.world.generator g).source := by
  obtain ⟨κ, hκ, rfl⟩ := hm.sound.order
  have hlt : g < d.world.generators.size := hm.sound.lt_size_of_operand hκ rfl
  have hrest : Rest (Coroutine.marks d.frames) g (d.world.generator g) := hm.sound.rest rfl
  obtain ⟨-, -, hidle⟩ := hrest.idle_of_not_running hrun
  cases hs : (d.world.generator g).status with
  | unused => exact pours_of_start hm h hrun hs
  | running =>
    obtain ⟨-, ⟨⟨size, k, scopes, captures, hf⟩, -⟩ | ⟨hdead, -⟩⟩ := hidle.started hs
    · have hsource := Generator.source_of_suspended hs hf
      have hcode : ((d.world.generator g).source).code? = some (k (.ok none)) := by
        rw [hsource]
        rfl
      obtain ⟨w₂, scopes', captures', henters⟩ := enters_of_code hm hlt hrun hcode
        fun hunused => by cases hs.symm.trans hunused
      exact pours_of_code hm h hcode henters
    · obtain ⟨w₁, hresume, hb⟩ := resume_running d.frames hrun hs hidle.slots.value hlt none
      have hsame : { d.world.generator g with value := none } = d.world.generator g := by
        rw [← hidle.slots.value]
      rw [hsame] at hb
      rw [Generator.source_of_dead hs hdead]
      exact pours_of_dead hm h hs hdead (.of_task (List.suffix_refl _) hresume (.refl _)) hb
        hidle.slots.outcome
  | finished =>
    obtain ⟨w₁, hresume, hb⟩ := resume_finished d.frames hrun hs none
    have hanswer := h.within.of_task_over (h.back.of_frames rfl) hresume
    obtain rfl := hanswer.eq_answer
    have hsource : (w₁.generator g).source = .finished := by
      rw [hb.self, Generator.source_of_finished hs]
    rw [Generator.source_of_finished hs]
    show Pours P g d _ (w₁.generator g).source
    rw [hsource]
    exact .exhausted (.inr rfl) h.result.symm

/-! ### Calls one after another -/

/-- Sessions get to `m`, and control is outside of the producer of `g` then. -/
structure Outside (P : Program C) (g : GeneratorId) (m : Machine C) : Prop where
  reachable : Reachable P m
  present : g < m.world.generators.size
  outside : (m.world.generator g).running = false

theorem Outside.between (h : Outside P g m) (hm : Between P g m m') : Outside P g m' := by
  obtain ⟨hlt, hbare⟩ := bare_of_between h.reachable h.present h.outside hm
  exact ⟨h.reachable.between hm, hlt, (congrArg Generator.running hbare).trans h.outside⟩

theorem Outside.source_of_between (h : Outside P g m) (hm : Between P g m m') :
    (m'.world.generator g).source = (m.world.generator g).source := by
  obtain ⟨-, hbare⟩ := bare_of_between h.reachable h.present h.outside hm
  have hsource : (m'.world.generator g).bare.source = (m.world.generator g).bare.source := by
    rw [hbare]
  exact hsource

theorem Outside.ends (h : Outside P g (d.site g)) (hd : d.Ends P g m) : Outside P g m := by
  have hend := h.reachable.leads hd.within.leads
  refine ⟨hend, Nat.lt_of_lt_of_le h.present (size_le_of_leads hd.within.leads), ?_⟩
  have hback := hd.back
  generalize hsite : d.site g = m₀ at hback
  cases hback with
  | answered | unwound =>
    subst hsite
    exact outside_of_back h.reachable rfl h.outside hend rfl

/-- The calls are a stream of what the producer comes to. -/
theorem stream_of_draws {ds : List (Draw C)} (h : Draws P g m ds m') (hm : Outside P g m) :
    Stream P g (m.world.generator g).source ds (m'.world.generator g).source := by
  induction h with
  | nil hbetween =>
    rw [hm.source_of_between hbetween]
    exact .nil _
  | @cons m m₁ m' d ds hbetween hd _ ih =>
    have hsite : Outside P g (d.site g) := hm.between hbetween
    rw [← hm.source_of_between hbetween]
    exact .cons (pours_of_ends hsite.reachable hd hsite.outside) (ih (hsite.ends hd))

theorem Between.later (h : Between P g m m') : Later P m m' := by
  induction h with
  | refl => exact .refl
  | move _ _ ih => exact ih.move
  | again s _ hcompleted ih => exact ih.again s hcompleted

end Machine

/-- Two calls in which the same code comes to the same. A panic leaves both or neither, and if there is no
stack for the producers, either call leaves its generator finished or neither does: what an entry
procedure has captured may close it when there is no memory. -/
structure Draw.Alike (P : Program C) (g g' : GeneratorId) (d d' : Draw C) : Prop where
  reactions : ∀ c, (d.world.generator g).source.code? = some c →
    (d'.world.generator g').source.code? = some c → ∀ ρ, d.Runs P g c ρ ↔ d'.Runs P g' c ρ
  panics : d.result = none ↔ d'.result = none
  finished : ∀ m m' name size, d.Ends P g m → d'.Ends P g' m' →
    d.result = some (.error (.fiberAllocation name size)) →
    ((m.world.generator g).status = .finished ↔ (m'.world.generator g').status = .finished)

/-- The next call goes on with the same code, or neither producer goes on. -/
inductive Source.Like : Source C → Source C → Prop
  | refl (s : Source C) : Like s s
  | past {s s' : Source C} : s = .broken ∨ s = .finished → s' = .broken ∨ s' = .finished → Like s s'

theorem Source.Like.symm {s s' : Source C} (h : s.Like s') : s'.Like s := by
  cases h with
  | refl => exact .refl _
  | past hs hs' => exact .past hs' hs

theorem Source.Like.of_eq {s s' : Source C} (h : s = s') : s.Like s' := h ▸ .refl s

theorem Source.Like.code {s s' : Source C} {c : C} (h : s.Like s') (hc : s.code? = some c) :
    s'.code? = some c := by
  cases h with
  | refl => exact hc
  | past hs _ => rcases hs with rfl | rfl <;> cases hc

theorem Source.Like.unused {s : Source C} {c : Option C} (h : (Source.unused c).Like s) :
    s = .unused c := by
  cases h with
  | refl => rfl
  | past hs _ => simp at hs

namespace Machine

variable {P : Program C} {g g' : GeneratorId} {d d' : Draw C} {m m' m₁ : Machine C} {ρ : Reaction C}
  {s s' : Source C} {c : C}

theorem Back.suffix {f : Frame C} {fs : List (Frame C)} (h : Back P f fs m) : fs <:+ m.frames := by
  cases h with
  | answers | unwinds => exact List.suffix_cons _ _
  | yields => exact suffix_under_stackFiber ..

/-- The reaction that the producer comes to in a call is what the call comes back with, unless the
cleanup panics. -/
theorem result_of_comes (hm : Reachable P (d.site g)) (h : d.Ends P g m) (hρ : d.Comes P g ρ) :
    d.result = some ρ.result ∨ d.result = none ∧ ∃ r, ρ = .ends r := by
  obtain ⟨m₁, hto, hreacts⟩ := hρ
  have hover : Over ⟨d.world, .stuck, d.frames⟩ m := h.back.of_frames rfl
  have hresult := h.result
  rcases over_of_reacts (hm.leads hto.leads) hreacts
    (hto.rest h.within hover hreacts.back.suffix) hover with ⟨w', rfl⟩ | ⟨r, w', p, hends, rfl⟩
  · exact .inl hresult.symm
  · exact .inr ⟨hresult.symm, r, hends⟩

theorem comes_unique {ρ' : Reaction C} (hm : Reachable P (d.site g)) (h : d.Comes P g ρ)
    (h' : d.Comes P g ρ') : ρ = ρ' := by
  obtain ⟨m₁, hto, hreacts⟩ := h
  obtain ⟨m₂, hto', hreacts'⟩ := h'
  exact reaction_unique hm hto hto' hreacts hreacts'

/-- What the call comes back with says how it has gone. -/
theorem source_of_result (hm : Reachable P (d.site g)) (h : Pours P g d s s') (hρ : d.Comes P g ρ)
    (hresult : d.result = some ρ.result) : s' = ρ.source := by
  cases h with
  | reacts _ hruns => rw [comes_unique hm hruns.comes hρ]
  | panicked _ _ hnone | uncleaned _ hnone => cases hnone.symm.trans hresult
  | refused _ hrefused | starved _ _ hrefused =>
    cases ρ with
    | yields => cases hrefused.symm.trans hresult
    | ends r => cases r <;> cases hrefused.symm.trans hresult
  | exhausted _ hexhausted =>
    cases ρ with
    | yields => cases hexhausted.symm.trans hresult
    | ends r => cases r <;> cases hexhausted.symm.trans hresult

theorem source_of_panic (h : Pours P g d s s') (hresult : d.result = none) :
    s' = .broken ∨ s' = .finished := by
  cases h with
  | panicked => exact .inl rfl
  | uncleaned => exact .inr rfl
  | reacts _ _ h | refused _ h | starved _ _ h | exhausted _ h => cases hresult.symm.trans h

/-- A call that runs the producer comes back with its reaction, unless a panic leaves it. -/
theorem result_of_runs (hm : Reachable P (d.site g)) (hd : d.Ends P g m) (h : Pours P g d s s')
    (hruns : d.Runs P g c ρ) (hnone : d.result ≠ none) :
    d.result = some ρ.result ∧ s' = ρ.source := by
  have hresult := (result_of_comes hm hd hruns.comes).resolve_right fun h => hnone h.1
  exact ⟨hresult, source_of_result hm h hruns.comes hresult⟩

/-- A call that does not run the producer has found no stack for it, or that it is over. -/
theorem allocation_or_exhausted (h : Pours P g d s s')
    (hquiet : ∀ c ρ, s.code? = some c → ¬ d.Runs P g c ρ) (hresult : d.result ≠ none) :
    (∃ c, s = .unused c ∧
        (s' = .unused (if stackSizeInRange (d.world.generator g).stackSize then none else c) ∨
          s' = .finished) ∧
        d.result = some (.error (.fiberAllocation (d.world.generator g).name
          (d.world.generator g).stackSize))) ∨
      (s = .broken ∨ s = .finished) ∧ s' = .finished ∧
        d.result = some (.error (.exhausted (d.world.generator g).name)) := by
  cases h with
  | reacts hc hruns => exact absurd hruns (hquiet _ _ hc)
  | panicked _ _ hnone | uncleaned _ hnone => exact absurd hnone hresult
  | @refused c hfails hrefused =>
    refine .inl ⟨c, rfl, .inl ?_, hrefused⟩
    rcases hfails with hrange | rfl
    · rw [hrange]
      rfl
    · split <;> rfl
  | @starved c _ hrange _ hstarved hs =>
    rw [hrange]
    exact .inl ⟨c, rfl, hs, hstarved⟩
  | exhausted hpast hexhausted => exact .inr ⟨hpast, rfl, hexhausted⟩

/-- Two calls in which the same code comes to the same come back with the same. -/
theorem alike_pours {m₁' : Machine C} (hm : Reachable P (d.site g)) (hm' : Reachable P (d'.site g'))
    (hd : d.Ends P g m₁) (hd' : d'.Ends P g' m₁')
    (h : Pours P g d (d.world.generator g).source (m₁.world.generator g).source)
    (h' : Pours P g' d' (d'.world.generator g').source (m₁'.world.generator g').source)
    (halike : d.Alike P g g' d')
    (hlike : (d.world.generator g).source.Like (d'.world.generator g').source)
    (hname : (d.world.generator g).name = (d'.world.generator g').name)
    (hsize : (d.world.generator g).stackSize = (d'.world.generator g').stackSize) :
    d.result = d'.result ∧ (m₁.world.generator g).source.Like (m₁'.world.generator g').source := by
  by_cases hnone : d.result = none
  · have hnone' := halike.panics.mp hnone
    exact ⟨hnone.trans hnone'.symm, .past (source_of_panic h hnone) (source_of_panic h' hnone')⟩
  have hnone' : d'.result ≠ none := mt halike.panics.mpr hnone
  by_cases hruns : ∃ c ρ, (d.world.generator g).source.code? = some c ∧ d.Runs P g c ρ
  · obtain ⟨c, ρ, hc, hruns⟩ := hruns
    have hruns' := (halike.reactions c hc (hlike.code hc) ρ).mp hruns
    obtain ⟨hresult, hsource⟩ := result_of_runs hm hd h hruns hnone
    obtain ⟨hresult', hsource'⟩ := result_of_runs hm' hd' h' hruns' hnone'
    exact ⟨hresult.trans hresult'.symm, .of_eq (hsource.trans hsource'.symm)⟩
  -- neither producer runs
  have hquiet (c : C) (ρ : Reaction C) (hc : (d.world.generator g).source.code? = some c) :
      ¬ d.Runs P g c ρ := fun h => hruns ⟨c, ρ, hc, h⟩
  have hquiet' (c : C) (ρ : Reaction C) (hc : (d'.world.generator g').source.code? = some c) :
      ¬ d'.Runs P g' c ρ := fun h =>
    hquiet c ρ (hlike.symm.code hc) ((halike.reactions c (hlike.symm.code hc) hc ρ).mpr h)
  rcases allocation_or_exhausted h hquiet hnone with
    ⟨c, hs, hleft, hresult⟩ | ⟨hpast, hleft, hresult⟩ <;>
  rcases allocation_or_exhausted h' hquiet' hnone' with
    ⟨c', hs', hright, hresult'⟩ | ⟨hpast', hright, hresult'⟩
  · obtain rfl : c' = c := by
      rw [hs] at hlike
      exact Source.unused.inj (hs'.symm.trans hlike.unused)
    refine ⟨by rw [hresult, hresult', hname, hsize], .of_eq ?_⟩
    have hfinished := halike.finished _ _ _ _ hd hd' hresult
    rcases hleft with hleft | hleft <;> rcases hright with hright | hright
    · rw [hleft, hright, hsize]
    · exact absurd (hfinished.mpr (Generator.finished_of_source hright))
        (Generator.not_finished_of_source hleft)
    · exact absurd (hfinished.mp (Generator.finished_of_source hleft))
        (Generator.not_finished_of_source hright)
    · rw [hleft, hright]
  · rw [hs] at hlike
    rw [hlike.unused] at hpast'
    simp at hpast'
  · rw [hs'] at hlike
    rw [hlike.symm.unused] at hpast
    simp at hpast
  · exact ⟨by rw [hresult, hresult', hname], .of_eq (hleft.trans hright.symm)⟩

/-- The generators `g` in `m` and `g'` in `m'` have one name and stacks of one size, and the next call
goes on with the same code, if any. -/
structure Twins (P : Program C) (g g' : GeneratorId) (m m' : Machine C) : Prop where
  left : Outside P g m
  right : Outside P g' m'
  name : (m.world.generator g).name = (m'.world.generator g').name
  stackSize : (m.world.generator g).stackSize = (m'.world.generator g').stackSize
  source : (m.world.generator g).source.Like (m'.world.generator g').source

theorem Twins.later {m₁' : Machine C} (h : Twins P g g' m m') (hm : Later P m m₁)
    (hm' : Later P m' m₁') (hleft : Outside P g m₁) (hright : Outside P g' m₁')
    (hsource : (m₁.world.generator g).source.Like (m₁'.world.generator g').source) :
    Twins P g g' m₁ m₁' := by
  obtain ⟨-, hname, hsize⟩ := fixed_of_later h.left.reachable hm h.left.present
  obtain ⟨-, hname', hsize'⟩ := fixed_of_later h.right.reachable hm' h.right.present
  exact ⟨hleft, hright, (hname.trans h.name).trans hname'.symm,
    (hsize.trans h.stackSize).trans hsize'.symm, hsource⟩

/-- Calls in which the same code comes to the same come back with the same, whoever makes them. -/
theorem results_of_draws {ds ds' : List (Draw C)} {m₁' : Machine C} (h : Draws P g m ds m₁)
    (h' : Draws P g' m' ds' m₁') (htwins : Twins P g g' m m')
    (halike : List.Forall₂ (Draw.Alike P g g') ds ds') : ds.map Draw.result = ds'.map Draw.result := by
  induction h generalizing m' ds' with
  | nil =>
    cases halike
    rfl
  | @cons m m₂ _ d ds hbetween hd _ ih =>
    cases halike with
    | @cons _ d' _ ds' halike hrest =>
    cases h' with
    | @cons _ m₂' _ _ _ hbetween' hd' hdraws' =>
    have hsites : Twins P g g' (d.site g) (d'.site g') := by
      refine htwins.later hbetween.later hbetween'.later (htwins.left.between hbetween)
        (htwins.right.between hbetween') ?_
      rw [htwins.left.source_of_between hbetween, htwins.right.source_of_between hbetween']
      exact htwins.source
    obtain ⟨hresult, hsource⟩ := alike_pours hsites.left.reachable hsites.right.reachable hd hd'
      (pours_of_ends hsites.left.reachable hd hsites.left.outside)
      (pours_of_ends hsites.right.reachable hd' hsites.right.outside) halike hsites.source
      hsites.name hsites.stackSize
    have hends : Twins P g g' m₂ m₂' :=
      hsites.later (.of_leads hd.within.leads) (.of_leads hd'.within.leads) (hsites.left.ends hd)
        (hsites.right.ends hd') hsource
    rw [List.map_cons, List.map_cons, hresult, ih hdraws' hends hrest]

end Machine

end Coroutine
