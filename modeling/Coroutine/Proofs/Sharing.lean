import Coroutine.Proofs.Iterating

/-! One stream for all. Main statement: in every reachable state all that draw from a generator share
what its producer comes to, be it through iterators or through handles; each call hands its result to the
one that made it, and an iterator that has ended leaves the generator alone. -/

namespace Coroutine

variable {C : Type}

/-- The item that says what a producer has come to. -/
def Reaction.item : Reaction C → Item OpError
  | yields v _ => .value v
  | ends (.ok _) => .ended
  | ends (.error e) => .failed (.raised e)

theorem Reaction.itemOf_result (ρ : Reaction C) : Machine.itemOf ρ.result = ρ.item := by
  rcases ρ with _ | _ | _ <;> rfl

/-- What an iterator hands out that makes the call. -/
inductive Draw.Meets (P : Program C) (g : GeneratorId) (d : Draw C) : Item OpError → Prop
  | reacts {ρ : Reaction C} : d.Comes P g ρ → Meets P g d ρ.item
  /-- There is no stack for the producer. -/
  | refused {c : Option C} : (d.world.generator g).source = .unused c →
      Meets P g d (.failed (.fiberAllocation (d.world.generator g).name
        (d.world.generator g).stackSize))
  | exhausted : (d.world.generator g).source = .broken ∨ (d.world.generator g).source = .finished →
      Meets P g d .ended

namespace Machine

/-- The frames of whoever makes a call on `g`: a named iterator, an iterator on the stack of running code,
a handle, or the own view of a producer. -/
inductive Waits (g : GeneratorId) : List (Frame C) → Prop
  | named (it : String) (left : Nat) (items : List (Item ErrorReport)) (fs : List (Frame C)) :
      Waits g (Pull.waits it fs left items g)
  | onStack (k : Item OpError → C) (fs : List (Frame C)) : Waits g (pulls fs k g)
  | handle (fs : List (Frame C)) : Waits g (.reporting :: .holding g :: fs)
  | view (k : Reply → C) (fs : List (Frame C)) : Waits g (.viewing g k :: fs)

/-- How a call through a handle is over that is made in the world `w`. -/
inductive Called (P : Program C) (g : GeneratorId) (w : World C) (fs : List (Frame C)) :
    Machine C → Prop
  /-- The result is replied. -/
  | replied {w₁ w' : World C} {r : Except OpError (Progress Value Value)} :
      Draw.Ends P g ⟨w.retain g, .reporting :: .holding g :: fs, some r⟩
        ⟨w₁, .answer (.progress r), .reporting :: .holding g :: fs⟩ →
      Called P g w fs ⟨w', .answer (.reply (reportProgress w₁ r).1), fs⟩
  /-- A panic leaves the call. -/
  | panicked {w₁ w' : World C} {u : Unwinding} :
      Draw.Ends P g ⟨w.retain g, .reporting :: .holding g :: fs, none⟩
        ⟨w₁, .unwind u, .reporting :: .holding g :: fs⟩ →
      Called P g w fs ⟨w', .unwind u, fs⟩
  /-- A panic leaves the end of the handle that the call has held. -/
  | lost {w₁ w' : World C} {r : Except OpError (Progress Value Value)} {u : Unwinding} :
      Draw.Ends P g ⟨w.retain g, .reporting :: .holding g :: fs, some r⟩
        ⟨w₁, .answer (.progress r), .reporting :: .holding g :: fs⟩ →
      Within P fs ⟨(reportProgress w₁ r).2, .task (.dropHandle g),
        .keeping (.reply (reportProgress w₁ r).1) :: fs⟩ ⟨w', .unwind u, fs⟩ →
      Called P g w fs ⟨w', .unwind u, fs⟩

variable {P : Program C} {g : GeneratorId} {d : Draw C} {w : World C} {fs : List (Frame C)}
  {m m' : Machine C} {name it : String} {n : Nat}

/-- A call is made by one of them. -/
theorem waits_of_reachable (h : Reachable P (d.site g)) : Waits g d.frames := by
  obtain ⟨κ, hκ, rfl⟩ := h.sound.order
  generalize hframes : (d.site g).frames = fs at hκ
  obtain rfl : d.frames = fs := hframes
  generalize d.frames = fs at hκ
  cases hκ with
  | pulling => exact .onStack ..
  | viewing hκ =>
    obtain rfl | hκ := hκ.imp_left Awaited.progress.inj
    · exact .view ..
    · cases hκ
  | reporting hκ =>
    obtain rfl | hκ := hκ.imp_left Awaited.progress.inj
    · exact .handle ..
    · cases hκ
  | pullingNamed => exact .named ..

/-- An iterator that makes the call hands out what it meets. -/
theorem meets_of_ends {r : Except OpError (Progress Value Value)} (hsite : Outside P g (d.site g))
    (h : d.Ends P g m) (hr : d.result = some r) : d.Meets P g (itemOf r) := by
  have hpours := pours_of_ends hsite.reachable h hsite.outside
  generalize hs : (d.world.generator g).source = s at hpours
  generalize (m.world.generator g).source = s' at hpours
  cases hpours with
  | @reacts s c ρ _ hruns hresult =>
    obtain rfl : r = ρ.result := Option.some.inj (hr.symm.trans hresult)
    exact ρ.itemOf_result ▸ .reacts hruns.comes
  | panicked _ _ hnone | uncleaned _ hnone => cases hr.symm.trans hnone
  | refused _ hresult | starved _ _ hresult =>
    cases hr.symm.trans hresult
    exact .refused hs
  | exhausted hpast hresult =>
    cases hr.symm.trans hresult
    exact .exhausted (hs ▸ hpast)

theorem called_of_over (hm : Reachable P ⟨w, .task (.step (.resume name none)), fs⟩)
    (hfind : w.handles.find? name = some g)
    (h : Within P fs ⟨w, .task (.step (.resume name none)), fs⟩ m') (hover : Over ⟨w, .stuck, fs⟩ m') :
    Called P g w fs m' := by
  have hm' : m'.frames = fs := hover.frames
  have hnext : next P ⟨w, .task (.step (.resume name none)), fs⟩ =
      ⟨w.retain g, .task (.resume g none), .reporting :: .holding g :: fs⟩ := by
    simp [next, perform, makeStep, operate, hfind, task]
  have hcall := h.of_ne fun heq => by cases heq ▸ hover
  have hm₁ := hm.move
  rw [hnext] at hcall hm₁
  have hgone : ¬ Frame.reporting :: .holding g :: fs <:+ m'.frames := by
    rw [hm']
    exact fun hle => absurd hle.length_le (by simp)
  have hout (F : Fates) : ¬ Awaits F .outcome (.reporting :: .holding g :: fs) := by
    intro hF
    cases hF with
    | reporting hκ => simp at hκ
  rcases draw_of_leaves hm₁ id hout hcall hgone with
    ⟨w₁, r, hd, hafter⟩ | ⟨w₁, u, hd, hafter⟩
  · have hreply : Within P fs ⟨(reportProgress w₁ r).2, .answer (.reply (reportProgress w₁ r).1),
        .holding g :: fs⟩ m' := hafter
    have hdrop : Within P fs ⟨(reportProgress w₁ r).2, .task (.dropHandle g),
        .keeping (.reply (reportProgress w₁ r).1) :: fs⟩ m' :=
      hreply.of_ne (by rintro rfl; exact List.cons_ne_self _ _ hm')
    have hto : Leads P ⟨w₁, .answer (.progress r), .reporting :: .holding g :: fs⟩
        ⟨(reportProgress w₁ r).2, .task (.dropHandle g),
          .keeping (.reply (reportProgress w₁ r).1) :: fs⟩ := .step rfl (.step rfl (.refl _))
    rcases over_of_keeping ((hm₁.leads hd.within.leads).leads hto) rfl hdrop hm' with
      ⟨w', rfl⟩ | ⟨w', u, rfl⟩
    · exact .replied hd
    · exact .lost hd hdrop
  · have hleft : leave w₁ u (.reporting :: .holding g :: fs) = ⟨w₁, .unwind u, .holding g :: fs⟩ := by
      cases u <;> rfl
    rw [hleft] at hafter
    have hdrop : Within P fs ⟨w₁, .task (.dropHandle g), .unwinding u :: fs⟩ m' :=
      hafter.of_ne (by rintro rfl; exact List.cons_ne_self _ _ hm')
    have hto : Leads P ⟨w₁, .unwind u, .reporting :: .holding g :: fs⟩
        ⟨w₁, .task (.dropHandle g), .unwinding u :: fs⟩ := .step hleft (.step rfl (.refl _))
    obtain ⟨w', rfl⟩ := unwound_of_unwinding ((hm₁.leads hd.within.leads).leads hto)
      (List.suffix_refl _) hdrop hover
    exact .panicked hd

/-- A pull of an iterator that has ended changes nothing. -/
theorem makeStep_pull_of_ended (hfind : w.iterators.find? it = some none) :
    makeStep w fs (.pull it n) = ⟨w, .answer (.reply (.items (List.replicate n .ended))), fs⟩ := by
  have hnamed (items : List (Item ErrorReport)) :
      nameIterator { w with iterators := w.iterators.erase it } fs it none (.reply (.items items)) =
        ⟨w, .answer (.reply (.items items)), fs⟩ := by
    simp [nameIterator, answer, Table.insert_erase hfind]
  cases n <;> simp [makeStep, hfind, pullNamed, hnamed]

/-- When it is dropped, only its name goes. -/
theorem within_dropIterator (hfind : w.iterators.find? it = some none) :
    Within P fs ⟨w, .task (.step (.dropIterator it)), fs⟩
      ⟨{ w with iterators := w.iterators.erase it }, .answer (.reply .ok), fs⟩ := by
  have hstep : makeStep w fs (.dropIterator it) = ⟨{ w with iterators := w.iterators.erase it },
      .task (.releaseScope (.iterator none)), .keeping (.reply .ok) :: fs⟩ := by
    simp [makeStep, hfind, task]
  exact .of_task (List.suffix_refl fs) hstep (.of_task (List.suffix_cons _ fs) rfl
    (.next_of_cons (List.suffix_refl _)))

/-- All that draw from `g` share one stream, from `m` on. -/
structure Sharing (P : Program C) (g : GeneratorId) (m : Machine C) : Prop where
  /-- Whoever makes the calls, they go on one after another with the one producer. -/
  stream : ∀ ds m', Outside P g m → Draws P g m ds m' →
    Stream P g (m.world.generator g).source ds (m'.world.generator g).source
  /-- They come back with the same as any other calls from a like state on, such as those that are all
  made through one handle, if the same code comes to the same in them. -/
  agrees : ∀ g' m₁ m' m₁' ds ds', Twins P g g' m m₁ → Draws P g m ds m' → Draws P g' m₁ ds' m₁' →
    List.Forall₂ (Draw.Alike P g g') ds ds' → ds.map Draw.result = ds'.map Draw.result
  /-- What the producer comes to in a call is its result, unless the cleanup panics. -/
  result : ∀ (d : Draw C) m' (ρ : Reaction C), m = d.site g → d.Ends P g m' → d.Comes P g ρ →
    d.result = some ρ.result ∨ d.result = none ∧ ∃ r, ρ = .ends r
  consumer : ∀ d : Draw C, m = d.site g → Waits g d.frames
  meets : ∀ (d : Draw C) m' r, m = d.site g → (m.world.generator g).running = false → d.Ends P g m' →
    d.result = some r → d.Meets P g (itemOf r)
  called : ∀ w fs name m', m = ⟨w, .task (.step (.resume name none)), fs⟩ →
    w.handles.find? name = some g → Within P fs m m' → Over ⟨w, .stuck, fs⟩ m' → Called P g w fs m'
  pulled : ∀ w fs it s n m', m = ⟨w, .task (.step (.pull it n)), fs⟩ →
    w.iterators.find? it = some s → Within P fs m m' → Over ⟨w, .stuck, fs⟩ m' →
    Pull.Concludes P it fs ⟨{ w with iterators := w.iterators.erase it }, s, n, []⟩ m'
  pulledScoped : ∀ w fs c k s m', m = ⟨w, .code c, .scope (.iterator s) :: fs⟩ → P.next c = .pull k →
    Within P fs (m.next P) m' → Pulled P fs k s w m'
  /-- A named iterator keeps its name and its source in between. -/
  kept : ∀ it is s m', Iterated P it m is s m' → m'.world.iterators.find? it = some s
  fused : ∀ it is s m', Iterated P it m is s m' → Fused s is
  fusedScoped : ∀ fs is s, Scoped P fs is s m → Fused s is
  /-- Iterators that have ended change nothing, whether they are pulled -/
  spent : ∀ w fs it n, m = ⟨w, .task (.step (.pull it n)), fs⟩ → w.iterators.find? it = some none →
    m.next P = ⟨w, .answer (.reply (.items (List.replicate n .ended))), fs⟩
  spentScoped : ∀ w fs c k, m = ⟨w, .code c, .scope (.iterator none) :: fs⟩ → P.next c = .pull k →
    m.next P = ⟨w, .code (k .ended), m.frames⟩
  /-- or dropped. -/
  dropped : ∀ w fs it, m = ⟨w, .task (.step (.dropIterator it)), fs⟩ →
    w.iterators.find? it = some none → Within P fs m
      ⟨{ w with iterators := w.iterators.erase it }, .answer (.reply .ok), fs⟩
  droppedScoped : ∀ w fs, m = ⟨w, .task (.releaseScope (.iterator none)), fs⟩ →
    m.next P = ⟨w, .answer .unit, fs⟩
  /-- The drop of a handle leaves the generator as it is if there is another one. -/
  handle : ∀ w fs, m = ⟨w, .task (.dropHandle g), fs⟩ → 1 < (w.generator g).handles →
    m.next P = ⟨w.modify g fun x => { x with handles := x.handles - 1 }, .answer .unit, fs⟩

/-- In every reachable state all that draw from a generator share one stream. -/
theorem sharing_of_reachable (h : Reachable P m) (g : GeneratorId) : Sharing P g m where
  stream _ _ hm hdraws := stream_of_draws hdraws hm
  agrees _ _ _ _ _ _ htwins hdraws hdraws' halike := results_of_draws hdraws hdraws' htwins halike
  result _ _ _ hm := by
    subst hm
    exact result_of_comes h
  consumer _ hm := waits_of_reachable (hm ▸ h)
  meets d _ _ hm hrun := by
    subst hm
    obtain ⟨κ, hκ, rfl⟩ := h.sound.order
    exact meets_of_ends ⟨h, h.sound.lt_size_of_operand hκ rfl, hrun⟩
  called _ _ _ _ hm hfind := by
    subst hm
    exact called_of_over h hfind
  pulled w fs it s n m' hm hfind hwithin hover := by
    subst hm
    have hnext : next P ⟨w, .task (.step (.pull it n)), fs⟩ =
        Pull.machine it fs ⟨{ w with iterators := w.iterators.erase it }, s, n, []⟩ := by
      simp [next, perform, makeStep, hfind, Pull.machine]
    have hmoved := hwithin.of_ne fun heq => by cases heq ▸ hover
    have hreached := h.move
    rw [hnext] at hmoved hreached
    exact concludes_of_over hreached hmoved hover
  pulledScoped _ _ _ _ _ _ hm hP hwithin := by
    subst hm
    exact pulled_of_within h hP hwithin
  kept _ _ _ _ hit := hit.find?
  fused _ _ _ _ hit := hit.fused
  fusedScoped _ _ _ hit := hit.fused
  spent _ _ _ _ hm hfind := by
    subst hm
    exact makeStep_pull_of_ended hfind
  spentScoped _ _ _ _ hm hP := by
    subst hm
    simp [next, hP, grant, code]
  dropped _ _ _ hm hfind := by
    subst hm
    exact within_dropIterator hfind
  droppedScoped _ _ hm := by
    subst hm
    rfl
  handle w fs hm hhandles := by
    subst hm
    have hlt : g < w.generators.size := w.lt_size_of_handles (Nat.zero_lt_of_lt hhandles)
    exact dropHandle_shared fs (fun hzero => absurd hzero (Nat.sub_ne_zero_of_lt hhandles)) hlt

/-- A run that does not come back before its end is within the frames that it has begun on. -/
theorem within_run (P : Program C) (n : Nat) (m : Machine C)
    (h : ∀ i < n, fs <:+ (run P i m).frames ∧
      ∀ a, (run P i m).control = .answer a → (run P i m).frames ≠ fs) :
    Within P fs m (run P n m) := by
  induction n generalizing m with
  | zero => exact .refl m
  | succ n ih =>
    obtain ⟨hfs, hback⟩ := h 0 (Nat.succ_pos n)
    rw [run]
    split
    · exact .refl m
    · next hrest =>
      refine .move hfs hback (ih _ fun i hi => ?_)
      have hnext := h (i + 1) (Nat.succ_lt_succ hi)
      rwa [run, if_neg hrest] at hnext

/-- The code of a producer that counts for ever. -/
def counting : Program Nat := ⟨fun n => .yield (.int n) fun _ => n + 1⟩

/-- An iterator and a handle of a generator that counts, used in turn. -/
theorem sharing_of_counting : ∃ (m m' : Machine Nat) (d d' : Draw Nat),
    Sharing counting 0 m ∧ Outside counting 0 m ∧ Draws counting 0 m [d, d'] m' ∧
      d.frames = [.pullingNamed "it" 0 0 []] ∧ d.result = some (.ok (.yielded (.int 0))) ∧
      d'.frames = [.reporting, .holding 0] ∧ d'.result = some (.ok (.yielded (.int 1))) := by
  have hcreate : Reachable counting
      ⟨{ stackMemory := minStackSize },
        .task (.step (.create "g" ⟨"g", minStackSize, none, [], [], none, 0⟩)), []⟩ := .start _ _
  have hiterate := (hcreate.leads (leads_run counting 2 _)).again (.iterate "g" "it" false)
    ⟨rfl, .inl ⟨_, rfl⟩⟩
  have hpull := (hiterate.leads (leads_run counting 2 _)).again (.pull "it" 1) ⟨rfl, .inl ⟨_, rfl⟩⟩
  refine ⟨_, _, ⟨_, [.pullingNamed "it" 0 0 []], some (.ok (.yielded (.int 0)))⟩,
    ⟨_, [.reporting, .holding 0], some (.ok (.yielded (.int 1)))⟩,
    sharing_of_reachable hpull 0, ⟨hpull, by decide, rfl⟩,
    .cons (.move .refl ?_) ⟨within_run counting 5 _ ?_, .answered _ _, rfl⟩
      (.cons (.move (.again (.resume "g" none) (.move .refl ?_) ⟨rfl, .inl ⟨_, rfl⟩⟩) ?_)
        ⟨within_run counting 5 _ ?_, .answered _ _, rfl⟩ (.nil .refl)), rfl, rfl, rfl, rfl⟩
  · rintro t ⟨⟩
    simp [Task.operates?]
  · intro i hi
    interval_cases i
    · exact ⟨⟨[], rfl⟩, fun _ h => by cases h⟩
    · exact ⟨⟨[], rfl⟩, fun _ h => by cases h⟩
    · exact ⟨⟨[], rfl⟩, fun _ h => by cases h⟩
    · exact ⟨⟨[.closure [], .driving 0], rfl⟩, fun _ h => by cases h⟩
    · exact ⟨⟨[], rfl⟩, fun _ h => by cases h⟩
  · intro t h
    cases h
  · rintro t ⟨⟩
    simp [Task.operates?]
  · intro i hi
    interval_cases i
    · exact ⟨⟨[], rfl⟩, fun _ h => by cases h⟩
    · exact ⟨⟨[], rfl⟩, fun _ h => by cases h⟩
    · exact ⟨⟨[.closure [], .driving 0], rfl⟩, fun _ h => by cases h⟩
    · exact ⟨⟨[.closure [], .driving 0], rfl⟩, fun _ h => by cases h⟩
    · exact ⟨⟨[], rfl⟩, fun _ h => by cases h⟩

end Machine

end Coroutine
