import Coroutine.Proofs.Operation

/-! The invariant of the machine: its frames are in order, every generator looks as the frames and
the control say, and a generator has at least the handles that are held. Main statements: what has
to be shown of a move that changes no generator, and of a move that changes one. -/

namespace Coroutine

variable {C : Type}

namespace Generator

/-- Two states of a generator that only differ in what plays no part in the hand-off: the number of
handles and the content of the payload. -/
def Alike (x x' : Generator C) : Prop :=
  ∃ handles payload, x' = { x with handles, payload } ∧ payload.isSome = x.payload.isSome

theorem Alike.refl (x : Generator C) : x.Alike x := ⟨x.handles, x.payload, rfl, rfl⟩

theorem Alike.status {x x' : Generator C} (h : x.Alike x') : x'.status = x.status := by
  obtain ⟨_, _, rfl, -⟩ := h
  rfl

theorem Alike.started {x x' : Generator C} (h : x.Alike x') (hx : x.Started) : x'.Started := by
  obtain ⟨_, payload, rfl, hp⟩ := h
  exact ⟨hx.status, hx.entry, hp ▸ hx.payload, hx.cleanup⟩

theorem Alike.ended {x x' : Generator C} (h : x.Alike x') (hx : x.Ended) : x'.Ended := by
  obtain ⟨_, payload, rfl, hp⟩ := h
  refine ⟨hx.status, hx.fiber, ?_⟩
  intro hc
  rcases hx.released hc with hn | hheld
  · exact .inl (by simpa [hn] using hp)
  · exact .inr hheld

theorem Alike.slotsEmpty {x x' : Generator C} (h : x.Alike x') (hx : x.SlotsEmpty) :
    x'.SlotsEmpty := by
  obtain ⟨_, _, rfl, -⟩ := h
  exact ⟨hx.value, hx.error, hx.outcome⟩

theorem Alike.inside {x x' : Generator C} (h : x.Alike x') (hx : x.Inside) : x'.Inside := by
  have hstarted := h.started hx.started
  obtain ⟨_, _, rfl, -⟩ := h
  exact ⟨hstarted, hx.running, hx.payloadHeld, hx.entered⟩

theorem Alike.unwound {x x' : Generator C} (h : x.Alike x') (hx : x.Unwound) : x'.Unwound := by
  have hended := h.ended hx.ended
  have hslots := h.slotsEmpty hx.slots
  obtain ⟨_, _, rfl, hp⟩ := h
  exact ⟨hended, hx.running, hslots, hx.entry, hp ▸ hx.payload, hx.cleanup, hx.payloadHeld⟩

theorem Alike.idle {x x' : Generator C} (h : x.Alike x') (hx : x.Idle) : x'.Idle := by
  have hstarted := h.started (x := x)
  have hended := h.ended (x := x)
  have hslots := h.slotsEmpty hx.slots
  obtain ⟨_, _, rfl, hp⟩ := h
  refine ⟨hx.running, hslots, ?_, ?_, ?_⟩
  · intro hs
    obtain ⟨hf, hh, hpay, hc⟩ := hx.unused hs
    exact ⟨hf, hh, hp ▸ hpay, hc⟩
  · intro hs
    obtain ⟨hst, hfiber⟩ := hx.started hs
    exact ⟨hstarted hst, hfiber⟩
  · intro hs
    obtain ⟨he, hent, hheld⟩ := hx.finished hs
    exact ⟨hended he, hent, hheld⟩

end Generator

theorem Rest.of_alike {ms : List Mark} {g : GeneratorId} {x x' : Generator C} (h : Rest ms g x)
    (hx : x.Alike x') : Rest ms g x' where
  inside hin := ⟨hx.inside (h.inside hin).1, hx.slotsEmpty (h.inside hin).2⟩
  unwound hun := hx.unwound (h.unwound hun)
  idle hin hun := by
    obtain ⟨hidle, hpending⟩ := h.idle hin hun
    refine ⟨hx.idle hidle, fun hs hc => hpending (hx.status ▸ hs) ?_⟩
    obtain ⟨_, _, rfl, -⟩ := hx
    exact hc

/-- What is known for good of the generators of a world when the control is `c`. A generator counts
as ended from the moment in which it is to be finished. -/
def World.fates (w : World C) (c : Control C) : Fates where
  known g := g < w.generators.size
  ended g := g < w.generators.size ∧
    ((w.generator g).status = .finished ∨ c = .task (.abandon g))

/-- The producer of `g` yielded in answer to a close that was made while frames were unwound. -/
def Machine.Defies (g : GeneratorId) (m : Machine C) : Prop :=
  ∃ v fs, m.control = .answer (.progress (.ok (.yielded v))) ∧ m.frames = .closing g :: fs ∧
    panicking fs

section Fits

-- the generators that yielded in answer to a close while frames were unwound
variable (δ : GeneratorId → Prop)

/-- Whether a task may be done on top of frames that wait for `κ`. A payload that is still in use is
only let go of if its producer defied a close. -/
def Task.Fits (w : World C) (fs : List (Frame C)) : Task C → Awaited → Prop
  | resume g _, κ | start g, κ | throw g _, κ => κ = .progress g
  | close g, κ => κ = .closed g
  | drive g, κ | suspended g, κ | terminated g, κ => κ = .progress g ∨ κ = .pursued g
  | wake g _, κ => κ = .code ∧ producer? fs = some g
  | abandon g, κ => κ = .unit ∧ g ∉ chain fs ∧ ((w.generator g).Parked → panicking fs → δ g)
  | finalize g, κ => κ = .unit ∧ ((w.generator g).Parked → panicking fs → δ g)
  | releaseEntry g, κ | releasePayload g, κ => κ = .unit ∧
      ((w.generator g).payloadHeld = true → (w.generator g).cleanup.isSome → δ g)
  | dropHandle _, κ | releaseScope _, κ | discard _ _, κ => κ = .unit
  | release _, κ => κ = .unit ∨ κ = .quiet
  | step _, κ => κ = .reply

/-- Whether the control may be on top of frames that wait for `κ`. When a close is over, or the
operation that is part of it, the producer is suspended exactly if it yielded. -/
def Control.Fits (w : World C) (fs : List (Frame C)) : Control C → Awaited → Prop
  | code _, κ => κ = .code
  | task t, κ => t.Fits δ w fs κ
  | answer a, κ => a.Fits κ ∧ ∀ g, κ.closing? = some g → (a.IsYield ↔ (w.generator g).Parked)
  | unwind (.panic p), κ => p.Orderly ∧ κ.IsOpen ∧
      ∀ g, κ.closing? = some g → ¬ (w.generator g).Parked
  | unwind .cancel, κ => κ = .cancel
  | aborted, _ => True
  | stuck, _ => False

/-- The frames are in order and wait for what the control is about to do. -/
def Ordered (w : World C) (c : Control C) (fs : List (Frame C)) : Prop :=
  ∃ κ, Awaits (w.fates c) κ fs ∧ c.Fits δ w fs κ

/-- The invariant of the machine. -/
structure Sound (m : Machine C) : Prop where
  order : Ordered δ m.world m.control m.frames
  shape : ∀ g, At m.control (marks m.frames) g (m.world.generator g)
  /-- A generator has at least the handles that are held. -/
  owned : ∀ g, m.held g ≤ (m.world.generator g).handles
  /-- A generator whose last handle is being dropped has none. -/
  dropped : ∀ g, .dropped g ∈ marks m.frames →
    g < m.world.generators.size ∧ (m.world.generator g).handles = 0
  /-- A generator without handles has ended, or is being dropped. -/
  unheld : ∀ g, g < m.world.generators.size → (m.world.generator g).handles = 0 →
    (m.world.generator g).status = .finished ∨ .dropped g ∈ marks m.frames ∨
      m.control = .task (.abandon g)

end Fits

/-- The control is about to do something that is no part of the hand-off. -/
def Control.Neutral (c : Control C) : Prop :=
  (∀ g, c.phase? g = none) ∧ ∀ g, c ≠ .task (.abandon g)

/-- Nothing that plays a part in the hand-off is changed, and no handle is made from nothing. -/
structure World.Alike (w w' : World C) : Prop where
  size : w'.generators.size = w.generators.size
  generator : ∀ g, (w.generator g).Alike (w'.generator g)
  handles : ∀ g, (w.generator g).handles = 0 → (w'.generator g).handles = 0
  positive : ∀ g, (w'.generator g).handles = 0 → (w.generator g).handles = 0 ∨
    (w.generator g).status = .finished

namespace Control

@[simp] theorem neutral_code (c : C) : (code c).Neutral := ⟨fun _ => rfl, nofun⟩

@[simp] theorem neutral_answer (a : Answer) : (answer a : Control C).Neutral :=
  ⟨fun _ => rfl, nofun⟩

@[simp] theorem neutral_unwind (u : Unwinding) : (unwind u : Control C).Neutral :=
  ⟨fun _ => rfl, nofun⟩

@[simp] theorem phase?_task (t : Task C) (g : GeneratorId) : (task t).phase? g =
    t.phase?.bind fun (h, phase) => if h = g then some phase else none := rfl

/-- The control is in no phase of an operation on another generator than `g`. -/
def About (g : GeneratorId) (c : Control C) : Prop := ∀ k, k ≠ g → c.phase? k = none

theorem About.task {t : Task C} {g : GeneratorId} {phase : Phase}
    (ht : t.phase? = some (g, phase)) : (Control.task t).About g :=
  fun k hk => by simp [ht, Ne.symm hk]

theorem About.none {c : Control C} {g : GeneratorId} (hc : ∀ k, c.phase? k = none) : c.About g :=
  fun k _ => hc k

theorem neutral_task {t : Task C} (ht : t.phase? = none) (hab : ∀ g, t ≠ .abandon g) :
    (task t).Neutral :=
  ⟨fun g => by simp [ht], fun g h => hab g (by simpa using h)⟩

end Control

theorem World.Alike.refl (w : World C) : w.Alike w :=
  ⟨rfl, fun _ => .refl _, fun _ h => h, fun _ h => .inl h⟩

theorem World.alike_of_generators {w w' : World C} (h : w'.generators = w.generators) :
    w.Alike w' := by
  have hg : ∀ g, w'.generator g = w.generator g := fun g => by simp [generator, h]
  constructor
  · rw [h]
  · intro g
    rw [hg]
    exact .refl _
  · intro g h0
    rw [hg]
    exact h0
  · intro g h0
    rw [hg] at h0
    exact .inl h0

/-- What is known for good stays known through a change that plays no part in the hand-off. -/
theorem World.Alike.fates_le {w w' : World C} {c c' : Control C} (h : w.Alike w')
    (hc : c.Neutral) : (w.fates c).Le (w'.fates c') where
  known g hg := by
    show g < w'.generators.size
    rw [h.size]
    exact hg
  ended g hg := by
    refine ⟨h.size ▸ hg.1, .inl ?_⟩
    rw [(h.generator g).status]
    exact hg.2.resolve_right (hc.2 g)

namespace World

variable {w w' : World C} {g : GeneratorId}

theorem generator_modify_cases (w : World C) (g k : GeneratorId) (φ : Generator C → Generator C) :
    (w.modify g φ).generator k = φ (w.generator k) ∨
      (w.modify g φ).generator k = w.generator k := by
  by_cases hk : k = g
  · subst hk
    by_cases hlt : k < w.generators.size
    · exact .inl (generator_modify_self hlt φ)
    · exact .inr (by simp [generator, World.modify, hlt])
  · exact .inr (generator_modify_of_ne hk φ)

theorem handles_modify {φ : Generator C → Generator C} (hh : ∀ x, (φ x).handles = x.handles)
    (k : GeneratorId) : ((w.modify g φ).generator k).handles = (w.generator k).handles := by
  rcases w.generator_modify_cases g k φ with h | h
  · rw [h, hh]
  · rw [h]

theorem alike_modify {φ : Generator C → Generator C} (hφ : ∀ x : Generator C, x.Alike (φ x))
    (hh : ∀ x, (φ x).handles = x.handles) : w.Alike (w.modify g φ) := by
  refine ⟨w.size_modify g φ, ?_, ?_, ?_⟩
  · intro k
    rcases w.generator_modify_cases g k φ with h | h
    · rw [h]
      exact hφ _
    · rw [h]
      exact .refl _
  · intro k h0
    rw [handles_modify hh, h0]
  · intro k h0
    rw [handles_modify hh] at h0
    exact .inl h0

/-- What is known for good stays known if a generator that has ended stays so. -/
theorem Becomes.fates_le {x : Generator C} {c c' : Control C} (h : w.Becomes g x w')
    (hx : (w.generator g).status = .finished → x.status = .finished)
    (hc : ∀ k, c = .task (.abandon k) → (w'.generator k).status = .finished) :
    (w.fates c).Le (w'.fates c') where
  known k hk := by
    show k < w'.generators.size
    rw [h.size]
    exact hk
  ended k hk := by
    refine ⟨h.size ▸ hk.1, .inl ?_⟩
    rcases hk.2 with hs | hk
    · by_cases hkg : k = g
      · subst hkg
        rw [h.self]
        exact hx hs
      · rw [h.other k hkg]
        exact hs
    · exact hc k hk

theorem Becomes.alike_of_handles {n : Nat}
    (h : w.Becomes g { w.generator g with handles := n } w') (k : GeneratorId) :
    (w.generator k).Alike (w'.generator k) := by
  by_cases hk : k = g
  · rw [hk, h.self]
    exact ⟨_, _, rfl, rfl⟩
  · rw [h.other k hk]
    exact .refl _

theorem Becomes.held_of_handles {n : Nat}
    (h : w.Becomes g { w.generator g with handles := n } w') (k : GeneratorId) :
    w'.held k ≤ w.held k := by
  have hheld := h.held k
  simp only [Generator.held] at hheld
  omega

end World

theorem Task.Fits.mono {δ δ' : GeneratorId → Prop} {w : World C} {fs : List (Frame C)}
    {t : Task C} {κ : Awaited} (h : t.Fits δ w fs κ) (hδ : ∀ g, δ g → δ' g) : t.Fits δ' w fs κ := by
  cases t with
  | abandon g => exact ⟨h.1, h.2.1, fun hp hpanicking => hδ g (h.2.2 hp hpanicking)⟩
  | finalize g => exact ⟨h.1, fun hp hpanicking => hδ g (h.2 hp hpanicking)⟩
  | releaseEntry g | releasePayload g => exact ⟨h.1, fun hheld hc => hδ g (h.2 hheld hc)⟩
  | _ => exact h

namespace Sound

variable {δ : GeneratorId → Prop} {m : Machine C} {w : World C} {c : Control C}
  {fs : List (Frame C)}

theorem mono {δ' : GeneratorId → Prop} (h : Sound δ m) (hδ : ∀ g, δ g → δ' g) : Sound δ' m := by
  obtain ⟨κ, hκ, hfits⟩ := h.order
  refine { h with order := ⟨κ, hκ, ?_⟩ }
  obtain ⟨w, control, fs⟩ := m
  cases control with
  | task t => exact hfits.mono hδ
  | unwind u => cases u <;> exact hfits
  | _ => exact hfits

/-- A generator that is in no phase looks as the frames say. -/
theorem rest (h : Sound δ m) {g : GeneratorId} (hphase : m.control.phase? g = none) :
    Rest (marks m.frames) g (m.world.generator g) := by
  have := h.shape g
  simpa only [At, hphase] using this

/-- Control is inside a generator exactly if it is on the chain of switches. -/
theorem running_iff_mem_chain (h : Sound δ m) (g : GeneratorId) :
    (m.world.generator g).running = true ↔ g ∈ chain m.frames := by
  obtain ⟨w, control, fs⟩ := m
  rw [mem_chain_iff]
  have hat := h.shape g
  cases hphase : control.phase? g with
  | none => exact (h.rest hphase).running_iff
  | some phase =>
    obtain ⟨t, rfl, ht⟩ := Control.task_of_phase? hphase
    by_cases hwaking : phase = .waking
    · subst hwaking
      cases t with
      | wake k _ =>
        cases ht
        obtain ⟨hin, hinside, -⟩ := At.waking_iff.mp hat
        exact ⟨fun _ => .inl hin, fun _ => hinside.running⟩
      | _ => cases ht
    · obtain ⟨hin, hun, hshape⟩ := hat.phase ht hwaking
      have hrun : (w.generator g).running = false := by
        cases phase with
        | starting => exact hshape.1.running
        | driven => exact hshape.2.1
        | waking => exact absurd rfl hwaking
        | switchedOut => exact hshape.2.1
        | terminated => exact hshape.2.1
        | finalizing => exact hshape.2.1
        | emptying => exact hshape.2.1
        | handing => exact hshape.2.1
      exact ⟨fun h => by simp [hrun] at h, fun h => absurd h (not_or.mpr ⟨hin, hun⟩)⟩

/-- A move that plays no part in the hand-off. -/
theorem neutral (h : Sound δ m) (hm : m.control.Neutral) (hw : m.world.Alike w)
    (hc : ∀ g, c.phase? g = none) (hmarks : marks fs = marks m.frames) (horder : Ordered δ w c fs)
    (howned : ∀ g, w.held g + c.held g + heldFrames g fs + (m.world.generator g).handles ≤
      m.held g + (w.generator g).handles) :
    Sound δ ⟨w, c, fs⟩ where
  order := horder
  shape g := by
    simp only [At, hc g, hmarks]
    exact (h.rest (hm.1 g)).of_alike (hw.generator g)
  owned g := by
    have := h.owned g
    have := howned g
    simp only [Machine.held] at *
    omega
  dropped g hg := by
    obtain ⟨hlt, h0⟩ := h.dropped g (hmarks ▸ hg)
    exact ⟨hw.size ▸ hlt, hw.handles g h0⟩
  unheld g hlt h0 := by
    rw [(hw.generator g).status, hmarks]
    rcases hw.positive g h0 with h0 | hs
    · exact (h.unheld g (hw.size ▸ hlt) h0).imp_right fun hd => .inl (hd.resolve_right (hm.2 g))
    · exact .inl hs

/-- A move that changes no generator, where what is held afterwards is counted anew. -/
theorem restack (h : Sound δ m) (hm : m.control.Neutral) (hw : w.generators = m.world.generators)
    (hc : ∀ g, c.phase? g = none) (hmarks : marks fs = marks m.frames)
    (horder : ∃ κ, Awaits (m.world.fates m.control) κ fs ∧ c.Fits δ w fs κ)
    (howned : ∀ g, w.held g + c.held g + heldFrames g fs ≤ (m.world.generator g).handles) :
    Sound δ ⟨w, c, fs⟩ := by
  have halike := World.alike_of_generators hw
  have hg (g : GeneratorId) : w.generator g = m.world.generator g := by
    simp [World.generator, hw]
  obtain ⟨κ, hκ, hfits⟩ := horder
  refine ⟨⟨κ, hκ.mono (halike.fates_le hm), hfits⟩, fun g => ?_, fun g => ?_, fun g hd => ?_,
    fun g hlt h0 => ?_⟩
  · simp only [At, hc g, hmarks, hg]
    exact h.rest (hm.1 g)
  · rw [hg]
    exact howned g
  · rw [hg, hw]
    exact h.dropped g (hmarks ▸ hd)
  · rw [hg] at h0 ⊢
    rw [hmarks]
    exact (h.unheld g (hw ▸ hlt) h0).imp_right fun hd => .inl (hd.resolve_right (hm.2 g))

/-- A move that changes no generator. -/
theorem still (h : Sound δ m) (hm : m.control.Neutral) (hw : w.generators = m.world.generators)
    (hc : ∀ g, c.phase? g = none) (hmarks : marks fs = marks m.frames)
    (horder : ∃ κ, Awaits (m.world.fates m.control) κ fs ∧ c.Fits δ w fs κ)
    (howned : ∀ g, w.held g + c.held g + heldFrames g fs ≤ m.held g) :
    Sound δ ⟨w, c, fs⟩ :=
  h.restack hm hw hc hmarks horder fun g => Nat.le_trans (howned g) (h.owned g)

theorem lt_size_of_operand {κ : Awaited} {g : GeneratorId} (h : Sound δ m)
    (hκ : Awaits (m.world.fates m.control) κ m.frames) (hg : κ.operand? = some g) :
    g < m.world.generators.size := by
  rcases hκ.held_of_operand hg with hheld | hdropped
  · have hpos : 0 < (m.world.generator g).handles :=
      Nat.lt_of_lt_of_le (Nat.lt_of_lt_of_le hheld (Nat.le_add_left ..)) (h.owned g)
    exact World.lt_size_of_handles hpos
  · exact (h.dropped g hdropped).1

/-- A move that changes one generator, or what the control and the frames say about it. -/
theorem change {g : GeneratorId} {x : Generator C} (h : Sound δ m) (hw : m.world.Becomes g x w)
    (hh : x.handles = (m.world.generator g).handles)
    (hx : (m.world.generator g).status = .finished → x.status = .finished)
    (hab : ∀ k, m.control = .task (.abandon k) → (w.generator k).status = .finished)
    (hm : m.control.About g) (hc : c.About g)
    (hmarks : ∀ μ, μ.Other g → (μ ∈ marks m.frames ↔ μ ∈ marks fs))
    (horder : (m.world.fates m.control).Le (w.fates c) → Ordered δ w c fs)
    (hat : At c (marks fs) g x)
    (howned : ∀ k, x.held k + c.held k + heldFrames k fs ≤
      (m.world.generator g).held k + m.control.held k + heldFrames k m.frames) :
    Sound δ ⟨w, c, fs⟩ := by
  have hhandles : ∀ k, (w.generator k).handles = (m.world.generator k).handles := fun k => by
    by_cases hk : k = g
    · rw [hk, hw.self, hh]
    · rw [hw.other k hk]
  have hfinished : ∀ k, (m.world.generator k).status = .finished →
      (w.generator k).status = .finished := fun k hs => by
    by_cases hk : k = g
    · subst hk
      rw [hw.self]
      exact hx hs
    · rwa [hw.other k hk]
  have hdrop : ∀ k, .dropped k ∈ marks m.frames ↔ .dropped k ∈ marks fs := fun k =>
    hmarks _ ⟨nofun, nofun, nofun⟩
  refine ⟨horder (hw.fates_le (hx) hab), fun k => ?_, fun k => ?_, fun k hk => ?_,
    fun k hlt h0 => ?_⟩
  · by_cases hk : k = g
    · subst hk
      rw [hw.self]
      exact hat
    · simp only [At, hc k hk, hw.other k hk]
      exact (h.rest (hm k hk)).of_sameMarks (.of_other hk hmarks)
  · have hworld := hw.held k
    have hall := howned k
    have howned := h.owned k
    rw [hhandles]
    simp only [Machine.held] at *
    omega
  · obtain ⟨hlt, h0⟩ := h.dropped k ((hdrop k).mpr hk)
    exact ⟨hw.size ▸ hlt, by rw [hhandles]; exact h0⟩
  · rw [hhandles] at h0
    rcases h.unheld k (hw.size ▸ hlt) h0 with hs | hd | hk
    · exact .inl (hfinished k hs)
    · exact .inr (.inl ((hdrop k).mp hd))
    · exact .inl (hab k hk)

end Sound

end Coroutine
