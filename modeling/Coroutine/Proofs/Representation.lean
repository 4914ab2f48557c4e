import Coroutine.Proofs.Change
import Coroutine.Proofs.Cleanup
import Coroutine.Proofs.Lasting

/-! How a generator is represented between the operations on it. Main statement: over every run in
which stacks can be allocated, a generator that no operation is going on with owns exactly what goes
with its status. -/

namespace Coroutine.Machine

variable {C : Type} {P : Program C} {m : Machine C} {ms : List (Machine C)} {g : GeneratorId}

/-- No operation on `g` is going on: control is not inside of it, and nothing is about to be done
with it or is being released of it. -/
structure Quiet (g : GeneratorId) (m : Machine C) : Prop where
  phase : m.control.phase? g = none
  inside : .inside g ∉ Coroutine.marks m.frames
  unwound : .unwound g ∉ Coroutine.marks m.frames
  emptied : .emptied g ∉ Coroutine.marks m.frames

/-- In one of these states a panic left the entry procedure of `g`. -/
def Panicked (ms : List (Machine C)) (g : GeneratorId) : Prop :=
  ∃ m ∈ ms, ∃ p fs, m.control = .unwind (.panic p) ∧ m.frames = .driving g :: fs

/-- In one of these states the suspended stack of `g` was given up while frames were unwound. -/
def Forsaken (ms : List (Machine C)) (g : GeneratorId) : Prop :=
  ∃ m ∈ ms, m.control = .task (.finalize g) ∧ (m.world.generator g).Parked ∧
    panicking m.frames = true

/-- What `g` owns in the last state of a run. -/
structure Consistent (g : GeneratorId) (m : Machine C) (ms : List (Machine C)) : Prop where
  running : (m.world.generator g).running = false
  slots : (m.world.generator g).SlotsEmpty
  unused : (m.world.generator g).status = .unused → (m.world.generator g).fiber = none ∧
    (m.world.generator g).entry.isSome ∧ (m.world.generator g).cleanup.isSome ∧
    (m.world.generator g).payload.isSome
  started : (m.world.generator g).status = .running → (m.world.generator g).entry = none ∧
    (m.world.generator g).cleanup.isSome ∧ (m.world.generator g).payload.isSome ∧
    ((m.world.generator g).Parked ∨ (m.world.generator g).Dead ∧ Panicked (m :: ms) g)
  finished : (m.world.generator g).status = .finished → (m.world.generator g).entry = none ∧
    (m.world.generator g).fiber = none ∧ (m.world.generator g).cleanup = none ∧
    ((m.world.generator g).payload = none ∨
      (m.world.generator g).payloadHeld = true ∧ Forsaken (m :: ms) g)

/-- What a run tells about `g` at any time, also while operations on it are going on. -/
structure Traced (g : GeneratorId) (m : Machine C) (ms : List (Machine C)) : Prop where
  unused : (m.world.generator g).status = .unused → (m.world.generator g).entry.isSome
  dead : (m.world.generator g).status = .running → (m.world.generator g).Dead →
    m.control ≠ .task (.terminated g) → Panicked (m :: ms) g
  held : (m.world.generator g).status = .finished → (m.world.generator g).fiber = none →
    (m.world.generator g).running = false → (m.world.generator g).payloadHeld = true →
    Forsaken (m :: ms) g

theorem Panicked.cons (h : Panicked ms g) (m : Machine C) : Panicked (m :: ms) g := by
  obtain ⟨k, hk, hpanicked⟩ := h
  exact ⟨k, .tail _ hk, hpanicked⟩

theorem Forsaken.cons (h : Forsaken ms g) (m : Machine C) : Forsaken (m :: ms) g := by
  obtain ⟨k, hk, hforsaken⟩ := h
  exact ⟨k, .tail _ hk, hforsaken⟩

variable {x : Generator C}

/-- An entry procedure that never ran is only lost for lack of memory. -/
theorem Change.unused (h : Change P g m x) (hmemory : maxStackSize ≤ m.world.stackMemory)
    (hentry : (m.world.generator g).status = .unused → (m.world.generator g).entry.isSome)
    (hs : x.status = .unused) : x.entry.isSome := by
  cases h with
  | kept _ hx =>
    rw [hx.entry]
    exact hentry (hx.status ▸ hs)
  | starved _ _ hrange hless =>
    exact absurd hless (Nat.not_lt_of_le (Nat.le_trans (le_maxStackSize hrange) hmemory))
  | started _ _ _ _ hx | finished _ _ hx => cases hx.status.symm.trans hs
  | entered _ _ hrunning hx => cases hrunning.symm.trans (hx.status.symm.trans hs)
  | parted _ _ _ _ hinside hx | left _ _ _ hinside _ hx =>
    cases hinside.started.status.symm.trans (hx.status.symm.trans hs)
  | dissolved _ hfinished _ hx | unstacked _ hfinished _ hx | emptied _ hfinished hx =>
    cases hfinished.symm.trans (hx.status.symm.trans hs)
  | unwound _ _ hunwound hx => cases hunwound.ended.status.symm.trans (hx.status.symm.trans hs)
  | released _ hended hx => cases hended.status.symm.trans (hx.status.symm.trans hs)

/-- A fiber that is over without being taken note of at once was left by a panic. -/
theorem Change.dead (h : Change P g m x)
    (hpanicked : (m.world.generator g).status = .running → (m.world.generator g).Dead →
      m.control ≠ .task (.terminated g) → Panicked (m :: ms) g)
    (hs : x.status = .running) (hdead : x.Dead)
    (hcontrol : (m.next P).control ≠ .task (.terminated g)) : Panicked (m :: ms) g := by
  obtain ⟨size, hf⟩ := hdead
  cases h with
  | kept hc hx => exact hpanicked (hx.status ▸ hs) ⟨size, hx.fiber ▸ hf⟩ hc
  | left _ fs hfs _ hend _ =>
    obtain ⟨p, hpanic⟩ := hend.resolve_left hcontrol
    exact ⟨m, .head _, p, fs, hpanic, hfs⟩
  | starved _ hunused _ _ hx => cases hunused.symm.trans (hx.status.symm.trans hs)
  | started _ _ _ _ hx | entered _ _ _ hx | parted _ _ _ _ _ hx =>
    cases hx.fiber.symm.trans hf
  | finished _ _ hx => cases hx.status.symm.trans hs
  | dissolved _ _ _ hx | unstacked _ _ _ hx => cases hx.fiber.symm.trans hf
  | unwound _ _ hunwound hx => cases hunwound.ended.fiber.symm.trans (hx.fiber.symm.trans hf)
  | emptied _ hfinished hx => cases hfinished.symm.trans (hx.status.symm.trans hs)
  | released _ hended hx => cases hended.status.symm.trans (hx.status.symm.trans hs)

/-- A payload stays in use for good only if the stack of its producer is given up. -/
theorem Change.held (h : Change P g m x)
    (hforsaken : (m.world.generator g).status = .finished → (m.world.generator g).fiber = none →
      (m.world.generator g).running = false → (m.world.generator g).payloadHeld = true →
      Forsaken (m :: ms) g)
    (hs : x.status = .finished) (hf : x.fiber = none) (hrun : x.running = false)
    (hheld : x.payloadHeld = true) : Forsaken (m :: ms) g := by
  cases h with
  | kept _ hx | emptied _ _ hx | released _ _ hx =>
    exact hforsaken (hx.status ▸ hs) (hx.fiber ▸ hf) (hx.running ▸ hrun) (hx.payloadHeld ▸ hheld)
  | starved _ hunused _ _ hx => cases hunused.symm.trans (hx.status.symm.trans hs)
  | started _ _ _ _ hx => cases hx.status.symm.trans hs
  | entered _ _ _ hx | parted _ _ _ _ _ hx => cases hx.fiber.symm.trans hf
  | left _ _ _ _ _ hx | unwound _ _ _ hx => cases hx.payloadHeld.symm.trans hheld
  | finished _ hfree hx =>
    have hfree := hfree (hx.fiber.symm.trans hf)
    cases hfree.symm.trans (hx.payloadHeld.symm.trans hheld)
  | dissolved hc _ hgiven hx =>
    obtain ⟨hparked, hpanicking⟩ := hgiven.resolve_left fun hfree => by
      cases hfree.symm.trans (hx.payloadHeld.symm.trans hheld)
    exact ⟨m, .head _, hc, hparked, hpanicking⟩
  | unstacked _ _ _ hx => cases hx.running.symm.trans hrun

theorem traced_vacant {w : World C} {c : Control C} {fs : List (Frame C)}
    (hg : w.generators.size ≤ g) : Traced g ⟨w, c, fs⟩ ms := by
  have hvacant : w.generator g = .vacant := World.generator_of_le hg
  constructor
  · show (w.generator g).status = .unused → _
    rw [hvacant]
    nofun
  · show (w.generator g).status = .running → _
    rw [hvacant]
    nofun
  · show _ → _ → _ → (w.generator g).payloadHeld = true → _
    rw [hvacant]
    nofun

theorem Traced.next {δ : GeneratorId → Prop} (h : Traced g m ms) (hsound : Sound δ m)
    (hmemory : maxStackSize ≤ m.world.stackMemory) : Traced g (m.next P) (m :: ms) := by
  by_cases hg : g < m.world.generators.size
  · have hchange : Change P g m ((m.next P).world.generator g) := change_next hsound hg
    exact ⟨hchange.unused hmemory h.unused,
      fun hs hdead hc => (hchange.dead h.dead hs hdead hc).cons _,
      fun hs hf hrun hheld => (hchange.held h.held hs hf hrun hheld).cons _⟩
  by_cases hg' : g < (m.next P).world.generators.size
  · obtain ⟨d, -, -, hnew⟩ := exists_made (Nat.le_of_not_lt hg) hg'
    constructor <;> rw [hnew]
    · exact fun _ => rfl
    · nofun
    · nofun
  · exact traced_vacant (Nat.le_of_not_lt hg')

theorem traced_of_run (h : Run P (m :: ms)) (hmemory : maxStackSize ≤ m.world.stackMemory)
    (g : GeneratorId) : Traced g m ms := by
  refine Run.invariant (I := fun m ms => maxStackSize ≤ m.world.stackMemory → Traced g m ms)
    ?_ ?_ ?_ h hmemory
  · exact fun _ _ _ => traced_vacant (Nat.zero_le g)
  · intro m ms hrun ih hmemory
    have hsound := hrun.reachable.sound
    rw [memory_next P hsound] at hmemory
    exact (ih hmemory).next hsound hmemory
  · intro m ms s _ hm ih hmemory
    have h := ih hmemory
    have hcontrol : m.control ≠ .task (.terminated g) := by
      rcases hm.2 with ⟨a, ha⟩ | ⟨u, hu⟩ <;> simp [*]
    exact ⟨h.unused, fun hs hdead _ => (h.dead hs hdead hcontrol).cons _,
      fun hs hf hrun hheld => (h.held hs hf hrun hheld).cons _⟩

/-- Between operations everything a generator owns goes with its status. -/
theorem consistent_of_quiet (h : Run P (m :: ms)) (hmemory : maxStackSize ≤ m.world.stackMemory)
    (hg : Quiet g m) : Consistent g m ms := by
  obtain ⟨hidle, hpending⟩ := (h.reachable.sound.rest hg.phase).idle hg.inside hg.unwound
  have htraced := traced_of_run h hmemory g
  refine ⟨hidle.running, hidle.slots, ?_, ?_, ?_⟩
  · intro hs
    obtain ⟨hfiber, -, hpayload, hcleanup⟩ := hidle.unused hs
    exact ⟨hfiber, htraced.unused hs, hcleanup, hpayload⟩
  · intro hs
    obtain ⟨hstarted, hfiber⟩ := hidle.started hs
    refine ⟨hstarted.entry, hstarted.cleanup, hstarted.payload, ?_⟩
    rcases hfiber with ⟨hparked, -⟩ | ⟨hdead, -⟩
    · exact .inl hparked
    · refine .inr ⟨hdead, htraced.dead hs hdead ?_⟩
      intro hc
      simpa [hc, Control.phase?, Task.phase?] using hg.phase
  · intro hs
    obtain ⟨hended, hentry, -⟩ := hidle.finished hs
    have hcleanup : (m.world.generator g).cleanup = none := by
      by_contra hc
      exact hg.emptied (hpending hs (Option.isSome_iff_ne_none.mpr hc))
    refine ⟨hentry, hended.fiber, hcleanup, ?_⟩
    rcases hended.released hcleanup with hpayload | hheld
    · exact .inl hpayload
    · exact .inr ⟨hheld, htraced.held hs hended.fiber hidle.running hheld⟩

/-- The state in which what was begun from `m` is over: it has an answer for the frames of `m`, or it
leaves them. -/
inductive Over (m : Machine C) : Machine C → Prop
  | answered (w : World C) (a : Answer) : Over m ⟨w, .answer a, m.frames⟩
  | unwound (w : World C) (u : Unwinding) : Over m ⟨w, .unwind u, m.frames⟩

theorem Quiet.over {m' : Machine C} (h : Quiet g m) (hm : Over m m') : Quiet g m' := by
  cases hm <;> exact ⟨rfl, h.inside, h.unwound, h.emptied⟩

theorem Run.leads {m' : Machine C} (h : Run P (m :: ms)) (hm : Leads P m m') :
    ∃ ms', Run P (m' :: ms') := by
  induction hm generalizing ms with
  | refl => exact ⟨ms, h⟩
  | move _ ih => exact ih h.move

/-- What a run keeps of the representation of its generators. -/
structure Represented (P : Program C) (m : Machine C) (ms : List (Machine C)) : Prop where
  consistent : ∀ g, Quiet g m → Consistent g m ms
  /-- Whatever is begun while no operation on a generator is going on, such as an operation on it,
  leaves the generator consistent, be it with an answer or with a panic. -/
  restored : ∀ g m', Quiet g m → Leads P m m' → Over m m' →
    ∃ ms', Run P (m' :: ms') ∧ Consistent g m' ms'

/-- Every run keeps the representation of its generators, if there is memory for their stacks. -/
theorem represented_of_run (h : Run P (m :: ms)) (hmemory : maxStackSize ≤ m.world.stackMemory) :
    Represented P m ms where
  consistent _ := consistent_of_quiet h hmemory
  restored g m' hquiet hlead hover := by
    obtain ⟨ms', hrun⟩ := h.leads hlead
    rw [← memory_of_leads h.reachable hlead] at hmemory
    exact ⟨ms', hrun, consistent_of_quiet hrun hmemory (hquiet.over hover)⟩

/-- The code of a producer that panics at once. -/
def alarming : Program Unit := ⟨fun _ => .panic "alarm"⟩

/-- A producer that has panicked leaves a fiber that is over. -/
theorem represented_of_alarming : ∃ (m : Machine Unit) (ms : List (Machine Unit)),
    Represented alarming m ms ∧ Quiet 0 m ∧ maxStackSize ≤ m.world.stackMemory ∧
      (m.world.generator 0).status = .running ∧ (m.world.generator 0).Dead ∧
      Consistent 0 m ms := by
  have hcreate : Reachable alarming
      ⟨{ stackMemory := maxStackSize },
        .task (.step (.create "g" ⟨"g", minStackSize, some [], [], [], none, ()⟩)), []⟩ :=
    .start _ _
  have hresume := (hcreate.leads (leads_run alarming 2 _)).again (.resume "g" none)
    ⟨rfl, .inl ⟨_, rfl⟩⟩
  obtain ⟨ms, hrun⟩ := reachable_iff_run.mp (hresume.leads (leads_run alarming 20 _))
  have hrepresented := represented_of_run hrun (Nat.le_refl maxStackSize)
  exact ⟨_, ms, hrepresented, ⟨rfl, nofun, nofun, nofun⟩, Nat.le_refl maxStackSize, rfl, ⟨_, rfl⟩,
    hrepresented.consistent 0 ⟨rfl, nofun, nofun, nofun⟩⟩

end Coroutine.Machine
