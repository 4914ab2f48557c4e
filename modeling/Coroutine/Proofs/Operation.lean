import Coroutine.Proofs.Handles
import Coroutine.Proofs.Shape

/-! What the operations on a generator lead to, from what the generator looks like: the task or the
answer that comes next, and what has become of the generator then. -/

namespace Coroutine

variable {C : Type}

namespace World

variable {w w' w'' : World C} {g : GeneratorId}

theorem generator_of_le (h : w.generators.size ≤ g) : w.generator g = .vacant := by
  simp [generator, Array.getD, Nat.not_lt_of_le h]

theorem lt_size_of_ne {α : Type} (f : Generator C → α) (h : f (w.generator g) ≠ f .vacant) :
    g < w.generators.size := by
  by_contra hlt
  exact h (congrArg f (generator_of_le (Nat.le_of_not_lt hlt)))

theorem lt_size_of_status (h : (w.generator g).status ≠ .finished) : g < w.generators.size :=
  w.lt_size_of_ne Generator.status h

theorem lt_size_of_running (h : (w.generator g).running = true) : g < w.generators.size := by
  apply w.lt_size_of_ne Generator.running
  rw [h]
  nofun

theorem lt_size_of_started (h : (w.generator g).Started) : g < w.generators.size := by
  apply lt_size_of_status
  rw [h.status]
  nofun

theorem lt_size_of_handles (h : 0 < (w.generator g).handles) : g < w.generators.size :=
  w.lt_size_of_ne Generator.handles (Nat.ne_of_gt h)

theorem lt_size_of_parked (h : (w.generator g).Parked) : g < w.generators.size := by
  obtain ⟨size, k, scopes, captures, hf⟩ := h
  exact w.lt_size_of_ne Generator.fiber (by rw [hf]; nofun)

theorem lt_size_of_dead (h : (w.generator g).Dead) : g < w.generators.size := by
  obtain ⟨size, hf⟩ := h
  exact w.lt_size_of_ne Generator.fiber (by rw [hf]; nofun)

/-- The world `w'` is `w` in which `g` has become `x`, apart from what plays no part in the
hand-off. -/
structure Becomes (g : GeneratorId) (x : Generator C) (w w' : World C) : Prop where
  size : w'.generators.size = w.generators.size
  self : w'.generator g = x
  other : ∀ k, k ≠ g → w'.generator k = w.generator k
  held : ∀ k, w'.held k + (w.generator g).held k ≤ w.held k + x.held k

theorem Becomes.refl (g : GeneratorId) (w : World C) : w.Becomes g (w.generator g) w :=
  ⟨rfl, rfl, fun _ _ => rfl, fun _ => Nat.le_refl _⟩

theorem Becomes.trans {x y : Generator C} (h : w.Becomes g x w') (h' : w'.Becomes g y w'') :
    w.Becomes g y w'' := by
  refine ⟨h'.size.trans h.size, h'.self, fun k hk => (h'.other k hk).trans (h.other k hk),
    fun k => ?_⟩
  have hfirst := h.held k
  have hsecond := h'.held k
  rw [h.self] at hsecond
  omega

theorem Becomes.note {x : Generator C} (h : w.Becomes g x w') (e : Event) :
    w.Becomes g x (w'.note e) :=
  ⟨h.size, h.self, h.other, h.held⟩

theorem Becomes.log {x : Generator C} (h : w.Becomes g x w') (r : Record) :
    w.Becomes g x (w'.log r) :=
  h.note _

theorem Becomes.ledger {x : Generator C} (h : w.Becomes g x w') (l : Ledger) :
    w.Becomes g x { w' with ledger := l } :=
  ⟨h.size, h.self, h.other, h.held⟩

theorem modify_eq_self {φ : Generator C → Generator C} (h : φ (w.generator g) = w.generator g) :
    w.modify g φ = w := by
  have hgen : w.generators.modify g φ = w.generators := by
    refine Array.ext (by simp) fun i hi hi' => ?_
    rw [Array.getElem_modify]
    split
    · next heq =>
      subst heq
      simpa [generator, hi'] using h
    · rfl
  rw [modify, hgen]

theorem Becomes.modify {x : Generator C} {φ : Generator C → Generator C} (h : w.Becomes g x w')
    (hφ : g < w.generators.size ∨ φ x = x) : w.Becomes g (φ x) (w'.modify g φ) := by
  rcases hφ with hlt | hφ
  · refine ⟨by rw [size_modify, h.size], ?_, fun k hk => ?_, fun k => ?_⟩
    · rw [generator_modify_self (h.size ▸ hlt), h.self]
    · rw [generator_modify_of_ne hk, h.other k hk]
    · have hheld := h.held k
      have hmodify := w'.held_modify_le (g := k) g φ
      rw [h.self] at hmodify
      omega
  · rw [modify_eq_self (by rw [h.self]; exact hφ), hφ]
    exact h

/-- An operation that leaves the status as it is, or leaves it to the start, only makes a record. -/
theorem apply_eq_log {o : Operation} {n : Status} {a : Action}
    (ht : transition (w.generator g).status o = (n, a)) (hlegal : a ≠ .illegal)
    (hkeep : a = .start ∨ n = (w.generator g).status) :
    w.apply g o =
      .ok (w.log (.transition g (w.generator g).name (w.generator g).status o n a), a) := by
  simp only [apply, ht, hlegal, if_false]
  rcases hkeep with rfl | rfl
  · rfl
  · rw [modify_eq_self (φ := fun x => { x with status := (w.generator g).status }) rfl]
    simp

theorem apply_log {o : Operation} {n : Status} {a : Action}
    (ht : transition (w.generator g).status o = (n, a)) (hlegal : a ≠ .illegal)
    (hkeep : a = .start ∨ n = (w.generator g).status) :
    ∃ w', w.apply g o = .ok (w', a) ∧ w.Becomes g (w.generator g) w' ∧
      w'.stackMemory = w.stackMemory :=
  ⟨_, apply_eq_log ht hlegal hkeep, (Becomes.refl g w).log _, rfl⟩

theorem apply_commit {o : Operation} {n : Status} {a : Action}
    (ht : transition (w.generator g).status o = (n, a)) (hlegal : a ≠ .illegal)
    (hstart : a ≠ .start) (hlt : g < w.generators.size) :
    ∃ w', w.apply g o = .ok (w', a) ∧ w.Becomes g { w.generator g with status := n } w' := by
  have hb := ((Becomes.refl g w).modify (φ := fun x => { x with status := n }) (.inl hlt)).log
    (.transition g (w.generator g).name (w.generator g).status o n a)
  refine ⟨_, ?_, hb⟩
  simp [apply, ht, hlegal, hstart]

theorem handles_apply {op : Operation} {action : Action} (h : w.apply g op = .ok (w', action)) :
    w'.handles = w.handles := by
  simp only [apply] at h
  split at h
  · cases h
  · cases h
    split <;> rfl

theorem ledger_apply {op : Operation} {action : Action} (h : w.apply g op = .ok (w', action)) :
    w'.ledger = w.ledger := by
  simp only [apply] at h
  split at h
  · cases h
  · cases h
    split <;> rfl

/-- The exit signal that a close raises is an exception of its own. -/
def exitSignal (w : World C) : Exception := (w.ledger.create .exit).1

end World

namespace Machine

variable {w : World C} {fs : List (Frame C)} {g : GeneratorId}

/-! ### Operations that callers ask for -/

theorem resume_of_running (fs : List (Frame C)) (hrun : (w.generator g).running = true)
    (sent : Option Value) :
    resume w fs g sent = progress w fs (.error (.reentrancy (w.generator g).name)) := by
  simp [resume, hrun]

theorem throwInto_of_running (fs : List (Frame C)) (hrun : (w.generator g).running = true)
    (e : Exception) :
    throwInto w fs g e = progress w fs (.error (.reentrancy (w.generator g).name)) := by
  simp [throwInto, hrun]

theorem close_of_running (fs : List (Frame C)) (hrun : (w.generator g).running = true) :
    close w fs g = closed w fs (.error (.reentrancy (w.generator g).name)) := by
  simp [close, hrun]

theorem resume_sent (fs : List (Frame C)) (hrun : (w.generator g).running = false)
    (hs : (w.generator g).status = .unused) (v : Value) :
    resume w fs g (some v) = progress w fs (.error (.sentBeforeStart (w.generator g).name)) := by
  simp [resume, hrun, hs]

theorem resume_unused (fs : List (Frame C)) (hrun : (w.generator g).running = false)
    (hs : (w.generator g).status = .unused) :
    ∃ w', resume w fs g none = task w' fs (.start g) ∧ w.Becomes g (w.generator g) w' ∧
      w'.stackMemory = w.stackMemory := by
  obtain ⟨w', happly, hb⟩ := World.apply_log (w := w) (g := g) (o := .resume) (n := .running)
    (a := .start) (by rw [hs]; rfl) (by decide) (.inl rfl)
  refine ⟨w', ?_, hb⟩
  simp [resume, hrun, happly]

/-- What is sent is put into the slot for values. -/
theorem resume_running (fs : List (Frame C)) (hrun : (w.generator g).running = false)
    (hs : (w.generator g).status = .running) (hvalue : (w.generator g).value = none)
    (hlt : g < w.generators.size) (sent : Option Value) :
    ∃ w', resume w fs g sent = task w' fs (.drive g) ∧
      w.Becomes g { w.generator g with value := sent } w' := by
  obtain ⟨w', happly, hb, -⟩ := World.apply_log (w := w) (g := g) (o := .resume) (n := .running)
    (a := .switchIn) (by rw [hs]; rfl) (by decide) (.inr hs.symm)
  cases sent with
  | none =>
    have hnone : { w.generator g with value := none } = w.generator g := by
      rw [← hvalue]
    refine ⟨w', ?_, hnone ▸ hb⟩
    simp [resume, hrun, happly]
  | some v =>
    refine ⟨_, ?_, hb.modify (φ := fun x => { x with value := some v }) (.inl hlt)⟩
    simp [resume, hrun, hs, happly, hvalue]

theorem resume_finished (fs : List (Frame C)) (hrun : (w.generator g).running = false)
    (hs : (w.generator g).status = .finished) (sent : Option Value) :
    ∃ w', resume w fs g sent = progress w' fs (.error (.exhausted (w.generator g).name)) ∧
      w.Becomes g (w.generator g) w' := by
  obtain ⟨w', happly, hb, -⟩ := World.apply_log (w := w) (g := g) (o := .resume) (n := .finished)
    (a := .exhausted) (by rw [hs]; rfl) (by decide) (.inr hs.symm)
  refine ⟨w', ?_, hb⟩
  simp [resume, hrun, hs, happly]

theorem throwInto_running (fs : List (Frame C)) (hrun : (w.generator g).running = false)
    (hs : (w.generator g).status = .running) (herror : (w.generator g).error = none)
    (hlt : g < w.generators.size) (e : Exception) :
    ∃ w', throwInto w fs g e = task w' fs (.drive g) ∧
      w.Becomes g { w.generator g with error := some e } w' := by
  obtain ⟨w', happly, hb, -⟩ := World.apply_log (w := w) (g := g) (o := .throw) (n := .running)
    (a := .switchIn) (by rw [hs]; rfl) (by decide) (.inr hs.symm)
  have hb := (hb.log (.injects g (w.generator g).name e.kind)).modify
    (φ := fun x => { x with error := some e }) (.inl hlt)
  refine ⟨_, ?_, hb⟩
  simp [throwInto, hrun, happly, herror]

theorem throwInto_not_running (fs : List (Frame C)) (hrun : (w.generator g).running = false)
    (hs : (w.generator g).status ≠ .running) (hlt : g < w.generators.size) (e : Exception) :
    ∃ w', throwInto w fs g e =
        task w' (.keeping (.progress (.error (.raised e))) :: fs) (.finalize g) ∧
      w.Becomes g { w.generator g with status := .finished } w' := by
  have ht : transition (w.generator g).status .throw = (.finished, .raise) := by
    cases h : (w.generator g).status with
    | running => exact absurd h hs
    | unused | finished => rfl
  obtain ⟨w', happly, hb⟩ := World.apply_commit ht (by decide) (by decide) hlt
  refine ⟨w', ?_, hb⟩
  simp [throwInto, hrun, happly]

theorem close_unused (fs : List (Frame C)) (hrun : (w.generator g).running = false)
    (hs : (w.generator g).status = .unused) (hlt : g < w.generators.size) :
    ∃ w', close w fs g = task w' (.keeping (.closed (.ok ())) :: fs) (.finalize g) ∧
      w.Becomes g { w.generator g with status := .finished } w' := by
  obtain ⟨w', happly, hb⟩ := World.apply_commit (o := .close) (n := .finished) (a := .finalize)
    (by rw [hs]; rfl) (by decide) (by decide) hlt
  refine ⟨w', ?_, hb⟩
  simp [close, hrun, happly]

/-- The exit signal is put into the slot for exceptions. -/
theorem close_running (fs : List (Frame C)) (hrun : (w.generator g).running = false)
    (hs : (w.generator g).status = .running) (herror : (w.generator g).error = none)
    (hlt : g < w.generators.size) :
    ∃ w', close w fs g = task w' (.closing g :: fs) (.drive g) ∧
      w.Becomes g { w.generator g with error := some w.exitSignal } w' := by
  obtain ⟨w', happly, hb, -⟩ := World.apply_log (w := w) (g := g) (o := .close) (n := .running)
    (a := .switchIn) (by rw [hs]; rfl) (by decide) (.inr hs.symm)
  have hb := ((hb.log (.closes g (w.generator g).name)).ledger (w'.ledger.create .exit).2).modify
    (φ := fun x => { x with error := some w.exitSignal }) (.inl hlt)
  refine ⟨_, ?_, hb⟩
  have hledger : w'.ledger = w.ledger := World.ledger_apply happly
  have hlogged : (w'.log (.closes g (w.generator g).name)).ledger = w.ledger := hledger
  simp [close, hrun, happly, herror, hledger, hlogged, World.exitSignal]

theorem close_finished (fs : List (Frame C)) (hrun : (w.generator g).running = false)
    (hs : (w.generator g).status = .finished) :
    ∃ w', close w fs g = closed w' fs (.ok ()) ∧ w.Becomes g (w.generator g) w' := by
  obtain ⟨w', happly, hb, -⟩ := World.apply_log (w := w) (g := g) (o := .close) (n := .finished)
    (a := .nothing) (by rw [hs]; rfl) (by decide) (.inr hs.symm)
  refine ⟨w', ?_, hb⟩
  simp [close, hrun, happly]

/-! ### Starts and switches -/

/-- The answer of a start that failed. -/
def startFailure (x : Generator C) : Answer :=
  .progress (.error (.fiberAllocation x.name x.stackSize))

theorem start_failed (fs : List (Frame C))
    (h : stackSizeInRange (w.generator g).stackSize = false ∨ (w.generator g).entry = none) :
    start w fs g = answer w fs (startFailure (w.generator g)) := by
  cases hrange : stackSizeInRange (w.generator g).stackSize with
  | false => simp [start, hrange, startFailure]
  | true =>
    have hentry := h.resolve_left (by simp [hrange])
    simp [start, hrange, hentry, startFailure]

/-- Without memory for a stack the entry procedure is released. -/
theorem start_outOfMemory (fs : List (Frame C)) {entry : Closure C}
    (hentry : (w.generator g).entry = some entry)
    (hrange : stackSizeInRange (w.generator g).stackSize = true)
    (hmemory : w.stackMemory < (w.generator g).stackSize) (hlt : g < w.generators.size) :
    ∃ w', start w fs g = task w' (.unwinding (.panic .outOfMemory) ::
        .catching (startFailure (w.generator g)) :: fs) (.release entry.captures) ∧
      w.Becomes g { w.generator g with entry := none } w' := by
  have hb := (World.Becomes.refl g w).modify (φ := fun x => { x with entry := none }) (.inl hlt)
  have hmemory : (w.modify g fun x => { x with entry := none }).stackMemory <
    (w.generator g).stackSize := hmemory
  refine ⟨_, ?_, hb⟩
  simp only [start, hrange, hentry, Bool.not_true, Bool.false_eq_true, if_false, if_pos hmemory,
    startFailure]

theorem start_unused (fs : List (Frame C)) {entry : Closure C}
    (hentry : (w.generator g).entry = some entry)
    (hrange : stackSizeInRange (w.generator g).stackSize = true)
    (hmemory : (w.generator g).stackSize ≤ w.stackMemory) (hlt : g < w.generators.size) :
    ∃ w', start w fs g = task w' fs (.drive g) ∧
      w.Becomes g { w.generator g with
        entry := none
        fiber := some ⟨(w.generator g).stackSize, .fresh entry⟩
        status := .running } w' := by
  have hb := ((((World.Becomes.refl g w).modify (φ := fun x => { x with entry := none })
    (.inl hlt)).log (.allocated (w.generator g).stackSize)).log
      (.starts g (w.generator g).name (w.generator g).stackSize)).modify (φ := fun x => { x with
        fiber := some ⟨x.stackSize, .fresh entry⟩, status := .running }) (.inl hlt)
  have hmemory : ¬ (w.modify g fun x => { x with entry := none }).stackMemory <
    (w.generator g).stackSize := Nat.not_lt_of_le hmemory
  refine ⟨_, ?_, hb⟩
  simp only [start, hrange, hentry, Bool.not_true, Bool.false_eq_true, if_false, if_neg hmemory]

theorem drive_fresh (fs : List (Frame C)) {size : Nat} {entry : Closure C}
    (hf : (w.generator g).fiber = some ⟨size, .fresh entry⟩)
    (hpayload : (w.generator g).payload.isSome) (hlt : g < w.generators.size) :
    ∃ w', drive w fs g =
        ⟨w', .code entry.code, stackFiber [] entry.captures (.driving g :: fs)⟩ ∧
      w.Becomes g { w.generator g with
        running := true
        payloadHeld := true
        fiber := some ⟨size, .active⟩ } w' := by
  have hpayload : (w.generator g).payload.isNone = false := Option.isNone_eq_false_iff.mpr hpayload
  have hb := ((World.Becomes.refl g w).log (.switchesIn g (w.generator g).name)).modify
    (φ := fun x => { x with running := true, payloadHeld := true, fiber := some ⟨size, .active⟩ })
    (.inl hlt)
  refine ⟨_, ?_, hb⟩
  simp only [drive, hf, hpayload, Bool.false_eq_true, if_false]

theorem drive_suspended (fs : List (Frame C)) {size : Nat}
    {k : Except Exception (Option Value) → C} {scopes : List (Scope C)}
    {captures : List (HeldGuard C)}
    (hf : (w.generator g).fiber = some ⟨size, .suspended k scopes captures⟩)
    (hlt : g < w.generators.size) :
    ∃ w', drive w fs g = task w' (stackFiber scopes captures (.driving g :: fs)) (.wake g k) ∧
      w.Becomes g { w.generator g with running := true, fiber := some ⟨size, .active⟩ } w' := by
  have hb := ((World.Becomes.refl g w).log (.switchesIn g (w.generator g).name)).modify
    (φ := fun x => { x with
      running := true
      payloadHeld := (w.generator g).payloadHeld
      fiber := some ⟨size, .active⟩ }) (.inl hlt)
  refine ⟨_, ?_, hb⟩
  simp only [drive, hf]

/-- The fiber of a producer that panicked is over. -/
theorem drive_over (fs : List (Frame C)) {size : Nat}
    (hf : (w.generator g).fiber = some ⟨size, .over⟩) :
    ∃ w', drive w fs g = task w' fs (.terminated g) ∧ w.Becomes g (w.generator g) w' := by
  have hb := (World.Becomes.refl g w).log (.switchesIn g (w.generator g).name)
  refine ⟨_, ?_, hb⟩
  simp only [drive, hf]

theorem wake_value (fs : List (Frame C)) (k : Except Exception (Option Value) → C)
    (herror : (w.generator g).error = none) (hlt : g < w.generators.size) :
    ∃ w', wake w fs g k = ⟨w', .code (k (.ok (w.generator g).value)), fs⟩ ∧
      w.Becomes g { w.generator g with value := none } w' := by
  have hb := ((World.Becomes.refl g w).log (.switchedBack g (w.generator g).name)).modify
    (φ := fun x => { x with value := none }) (.inl hlt)
  refine ⟨_, ?_, hb⟩
  simp only [wake, herror]

theorem wake_error (fs : List (Frame C)) (k : Except Exception (Option Value) → C) {e : Exception}
    (herror : (w.generator g).error = some e) (hlt : g < w.generators.size) :
    ∃ w', wake w fs g k = ⟨w', .code (k (.error e)), fs⟩ ∧
      w.Becomes g { w.generator g with error := none } w' := by
  have hb := (((World.Becomes.refl g w).log (.switchedBack g (w.generator g).name)).modify
    (φ := fun x => { x with error := none }) (.inl hlt)).log
      (.raisesInjected g (w.generator g).name e.kind)
  refine ⟨_, ?_, hb⟩
  simp only [wake, herror]

/-- A producer suspends itself, and its stack is kept with its fiber. -/
theorem yield_driving (fs : List (Frame C)) (scopes : List (Scope C))
    (captures : List (HeldGuard C)) (v : Value) (k : Except Exception (Option Value) → C)
    (hf : (w.generator g).Entered) (hslots : (w.generator g).SlotsEmpty)
    (hlt : g < w.generators.size) :
    ∃ w' size, yield w (stackFiber scopes captures (.driving g :: fs)) v k =
        task w' fs (.suspended g) ∧
      w.Becomes g { w.generator g with
        value := some v
        running := false
        fiber := some ⟨size, .suspended k scopes captures⟩ } w' := by
  obtain ⟨size, hf⟩ := hf
  have hb := ((World.Becomes.refl g w).log (.switchesOut g (w.generator g).name)).modify
    (φ := fun x => { x with
      value := some v
      running := false
      fiber := x.fiber.map fun f => { f with state := .suspended k scopes captures } }) (.inl hlt)
  simp only [hf, Option.map_some] at hb
  refine ⟨_, size, ?_, hb⟩
  simp [yield, splitFiber_eq_some_iff.mpr rfl, hslots.error, hslots.value]

theorem suspended_running (fs : List (Frame C)) {v : Value}
    (hs : (w.generator g).status = .running) (hvalue : (w.generator g).value = some v)
    (hlt : g < w.generators.size) :
    ∃ w', suspended w fs g = progress w' fs (.ok (.yielded v)) ∧
      w.Becomes g { w.generator g with value := none } w' := by
  obtain ⟨w', happly, hb, -⟩ := World.apply_log (w := w) (g := g) (o := .yielded) (n := .running)
    (a := .deliver) (by rw [hs]; rfl) (by decide) (.inr hs.symm)
  refine ⟨_, ?_, hb.modify (φ := fun x => { x with value := none }) (.inl hlt)⟩
  simp only [suspended, happly, hb.self, hvalue]

/-! ### The end of a generator -/

/-- The outcome of a producer that is over is handed to its caller. -/
theorem endProducer_eq {r : Except Exception Value} (fs : List (Frame C))
    (hlt : g < w.generators.size) (hempty : (w.generator g).outcome = none) :
    ∃ w', endProducer w fs g r = task w' fs (.terminated g) ∧
      w.Becomes g { w.generator g with
        running := false, payloadHeld := false, outcome := some r
        fiber := (w.generator g).fiber.map fun f => { f with state := .over } } w' := by
  have hb : w.Becomes g _ (leaveProducer w g) := (World.Becomes.refl g w).modify (.inl hlt)
  cases r with
  | ok v =>
    simp only [endProducer, hb.self, hempty, Option.isSome_none, Bool.false_eq_true, if_false]
    exact ⟨_, rfl, hb.modify (φ := fun x => { x with outcome := some (.ok v) }) (.inl hlt)⟩
  | error e =>
    simp only [endProducer, hb.self, hempty, Option.isSome_none, Bool.false_eq_true, if_false]
    exact ⟨_, rfl, (hb.ledger _).modify (φ := fun x => { x with outcome := some (.error e) })
      (.inl hlt)⟩

/-- What the caller gets from a producer that is over. One that panicked has left no outcome. -/
def resultOf (x : Generator C) : Except OpError (Progress Value Value) :=
  match x.outcome with
  | some (.ok v) => .ok (.returned v)
  | some (.error e) => .error (.raised e)
  | none => .error (.exhausted x.name)

theorem resultOf_of_none {x : Generator C} (h : x.outcome = none) :
    resultOf x = .error (.exhausted x.name) := by
  rw [resultOf, h]

theorem not_isYield_resultOf (x : Generator C) : ¬ (Answer.progress (resultOf x)).IsYield := by
  unfold resultOf
  split <;> exact not_false

theorem terminated_running (fs : List (Frame C)) (hs : (w.generator g).status = .running)
    (hlt : g < w.generators.size) :
    ∃ w', terminated w fs g =
        task w' (.keeping (.progress (resultOf (w.generator g))) :: fs) (.finalize g) ∧
      w.Becomes g { w.generator g with status := .finished, outcome := none } w' := by
  obtain ⟨w', happly, hb⟩ := World.apply_commit (o := .terminated) (n := .finished)
    (a := .finalize) (by rw [hs]; rfl) (by decide) (by decide) hlt
  refine ⟨_, ?_, hb.modify (φ := fun x => { x with outcome := none }) (.inl hlt)⟩
  simp only [terminated, happly, hb.self]
  rfl

theorem abandon_of_not_finished (fs : List (Frame C)) (hs : (w.generator g).status ≠ .finished)
    (hlt : g < w.generators.size) :
    ∃ w', abandon w fs g = task w' fs (.finalize g) ∧
      w.Becomes g { w.generator g with status := .finished } w' := by
  cases hstatus : (w.generator g).status with
  | unused =>
    obtain ⟨w', happly, hb⟩ := World.apply_commit (o := .close) (n := .finished) (a := .finalize)
      (by rw [hstatus]; rfl) (by decide) (by decide) hlt
    refine ⟨w', ?_, hb⟩
    simp only [abandon, hstatus, happly]
  | running =>
    obtain ⟨w', happly, hb⟩ := World.apply_commit (o := .terminated) (n := .finished)
      (a := .finalize) (by rw [hstatus]; rfl) (by decide) (by decide) hlt
    refine ⟨w', ?_, hb⟩
    simp only [abandon, hstatus, happly]
  | finished => exact absurd hstatus hs

theorem abandon_of_finished (fs : List (Frame C)) (hs : (w.generator g).status = .finished) :
    abandon w fs g = answer w fs .unit := by
  simp only [abandon, hs]

theorem finalize_of_none (fs : List (Frame C)) (hf : (w.generator g).fiber = none) :
    finalize w fs g = task w fs (.releaseEntry g) := by
  simp only [finalize, hf]

theorem finalize_over (fs : List (Frame C)) (hf : (w.generator g).Dead)
    (hlt : g < w.generators.size) :
    ∃ w', finalize w fs g = task w' fs (.releaseEntry g) ∧
      w.Becomes g { w.generator g with fiber := none } w' := by
  obtain ⟨size, hf⟩ := hf
  have hb := (World.Becomes.refl g w).modify (φ := fun x => { x with fiber := none }) (.inl hlt)
  refine ⟨_, ?_, hb⟩
  simp only [finalize, hf]

/-- A suspended producer is given up while frames are unwound. -/
theorem finalize_panicking (hf : (w.generator g).Parked) (hpanicking : panicking fs)
    (hlt : g < w.generators.size) :
    ∃ w', finalize w fs g = task w' fs (.releaseEntry g) ∧
      w.Becomes g { w.generator g with fiber := none } w' := by
  obtain ⟨size, k, scopes, captures, hf⟩ := hf
  have hb := ((World.Becomes.refl g w).modify (φ := fun x => { x with fiber := none })
    (.inl hlt)).log (.abandonsFiber (stackGuards scopes captures))
  refine ⟨_, ?_, hb⟩
  simp only [finalize, hf, if_pos hpanicking]

/-- Else its stack is unwound by force. -/
theorem finalize_suspended (hf : (w.generator g).Parked) (hpanicking : ¬ panicking fs)
    (hlt : g < w.generators.size) :
    ∃ w' size k scopes captures,
      (w.generator g).fiber = some ⟨size, .suspended k scopes captures⟩ ∧
      finalize w fs g = ⟨w', .unwind .cancel, stackFiber scopes captures (.destroying g :: fs)⟩ ∧
      w.Becomes g { w.generator g with fiber := none, running := true } w' := by
  obtain ⟨size, k, scopes, captures, hf⟩ := hf
  have hb := ((World.Becomes.refl g w).modify
    (φ := fun x => { x with fiber := none, running := true }) (.inl hlt)).log .unwindsFiber
  refine ⟨_, size, k, scopes, captures, hf, ?_, hb⟩
  simp only [finalize, hf, if_neg hpanicking]

theorem releaseEntry_none (fs : List (Frame C)) (hentry : (w.generator g).entry = none) :
    releaseEntry w fs g = task w fs (.releasePayload g) := by
  simp only [releaseEntry, hentry]

theorem releaseEntry_some (fs : List (Frame C)) {entry : Closure C}
    (hentry : (w.generator g).entry = some entry) (hlt : g < w.generators.size) :
    ∃ w', releaseEntry w fs g = task w' (.emptying g :: fs) (.release entry.captures) ∧
      w.Becomes g { w.generator g with entry := none } w' := by
  have hb := (World.Becomes.refl g w).modify (φ := fun x => { x with entry := none }) (.inl hlt)
  refine ⟨_, ?_, hb⟩
  simp only [releaseEntry, hentry]

/-- A generator that is not finished is closed with its last handle. -/
theorem dropHandle_last (fs : List (Frame C)) (hlast : (w.generator g).handles - 1 = 0)
    (hs : (w.generator g).status ≠ .finished) (hlt : g < w.generators.size) :
    dropHandle w fs g = task (w.modify g fun x => { x with handles := x.handles - 1 })
      (.dropping g :: fs) (.close g) := by
  have hfinished : (w.generator g).status.isFinished = false := by
    rw [Bool.eq_false_iff]
    exact mt (Status.isFinished_iff _).mp hs
  simp [dropHandle, World.generator_modify_self hlt, hlast, hfinished]

theorem dropHandle_shared (fs : List (Frame C))
    (hlast : (w.generator g).handles - 1 = 0 → (w.generator g).status = .finished)
    (hlt : g < w.generators.size) :
    dropHandle w fs g =
      answer (w.modify g fun x => { x with handles := x.handles - 1 }) fs .unit := by
  have hfinished : ¬ ((w.generator g).handles - 1 = 0 ∧
      (w.generator g).status.isFinished = false) := by
    rintro ⟨h0, hs⟩
    rw [(Status.isFinished_iff _).mpr (hlast h0)] at hs
    cases hs
  simp [dropHandle, World.generator_modify_self hlt, hfinished]

/-- What the release of the payload of `g` leads to. -/
inductive Releases (w : World C) (fs : List (Frame C)) (g : GeneratorId) : Machine C → Prop
  | nothing {w' : World C} : (w.generator g).cleanup = none →
      w.Becomes g (w.generator g).emptySlots w' → w'.history = w.history →
      Releases w fs g (answer w' fs .unit)
  /-- The payload stays in use for good. -/
  | lost {w' : World C} {cleanup : Cleanup C} : (w.generator g).cleanup = some cleanup →
      (w.generator g).payloadHeld = true →
      w.Becomes g { (w.generator g).emptySlots with cleanup := none } w' →
      w'.history = .logged (.leaksPayload g (w.generator g).name) ::
        .logged (.finalizes g (w.generator g).name) :: w.history →
      Releases w fs g (answer w' fs .unit)
  | discarded {w' : World C} {cleanup : Cleanup C} : (w.generator g).cleanup = some cleanup →
      (w.generator g).payloadHeld = false →
      ((w.generator g).payload.isSome → ∀ steps last, cleanup ≠ .callback steps last) →
      w.Becomes g { (w.generator g).emptySlots with cleanup := none, payload := none } w' →
      w'.history = .logged (.finalizes g (w.generator g).name) :: w.history →
      Releases w fs g (answer w' fs .unit)
  /-- The cleanup gets the payload. -/
  | paid {w' : World C} {steps : List (Step C)} {last : Option String} {payload : List Value} :
      (w.generator g).cleanup = some (.callback steps last) →
      (w.generator g).payloadHeld = false → (w.generator g).payload = some payload →
      w.Becomes g { (w.generator g).emptySlots with cleanup := none, payload := none } w' →
      w'.history = .cleanup g (w.generator g).name payload ::
        .logged (.finalizes g (w.generator g).name) :: w.history →
      Releases w fs g (clean w' fs steps last)

theorem releases_releasePayload (w : World C) (fs : List (Frame C)) (g : GeneratorId) :
    Releases w fs g (releasePayload w fs g) := by
  have hslots : w.Becomes g (w.generator g).emptySlots (w.modify g .emptySlots) := by
    refine (World.Becomes.refl g w).modify ?_
    by_cases hlt : g < w.generators.size
    · exact .inl hlt
    · refine .inr ?_
      simp [World.generator, hlt, Generator.emptySlots, Generator.vacant]
  simp only [releasePayload, hslots.self]
  split
  · next hcleanup => exact .nothing hcleanup hslots rfl
  next cleanup hcleanup =>
  have hcleanup : (w.generator g).cleanup = some cleanup := hcleanup
  have hlt : g < w.generators.size :=
    w.lt_size_of_ne Generator.cleanup (hcleanup ▸ Option.some_ne_none _)
  have hcut := (hslots.modify (φ := fun x => { x with cleanup := none }) (.inl hlt)).log
    (.finalizes g (w.generator g).emptySlots.name)
  split
  · next hheld => exact .lost hcleanup hheld (hcut.log _) rfl
  next hheld =>
  have hheld : (w.generator g).payloadHeld = false := by simpa [Generator.emptySlots] using hheld
  have hgiven := hcut.modify (φ := fun x => { x with payload := none }) (.inl hlt)
  split
  · next hpayload _ => exact .paid hcleanup hheld hpayload (hgiven.note _) rfl
  · next hno _ =>
    refine .discarded hcleanup hheld (fun hp steps last hc => ?_) hgiven rfl
    obtain ⟨payload, hp⟩ := Option.isSome_iff_exists.mp hp
    exact hno payload steps last hp hc

/-! ### Names of handles -/

theorem world_clean (todo : List (Step C)) (last : Option String) :
    (clean w fs todo last).world = w := by
  cases todo with
  | cons => rfl
  | nil => cases last <;> rfl

theorem world_releaseStep (name : String) (todo : List (Step C)) (rest : List (HeldGuard C)) :
    (releaseStep w fs name todo rest).world = w := by
  cases todo <;> rfl

/-- Operations on generators do nothing to the names of handles. -/
theorem handles_perform {t : Task C} (ht : t.operates? = some g ∨ t = .dropHandle g) :
    (perform w fs t).world.handles = w.handles := by
  rcases ht with ht | rfl
  · cases t with
    | resume | throw | close | suspended | terminated | abandon =>
      simp only [perform, resume, throwInto, close, suspended, terminated, abandon]
      repeat' split
      all_goals
        first
        | rfl
        | (have hsame := World.handles_apply ‹w.apply _ _ = .ok _›
           exact hsame)
    | start | drive | wake | finalize | releaseEntry =>
      simp only [perform, start, drive, wake, finalize, releaseEntry]
      repeat' split
      all_goals rfl
    | releasePayload =>
      simp only [perform, releasePayload]
      repeat' split
      all_goals first | rfl | rw [world_clean]; rfl
    | _ => cases ht
  · simp only [perform, dropHandle]
    split <;> rfl

end Machine

end Coroutine
