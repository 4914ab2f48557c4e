import Coroutine.Proofs.Lasting
import Coroutine.Proofs.Refinement
import Coroutine.Recursion

/-! Steps carried out move by move. Main statements: what comes of resuming a generator of the recursion
on generators, from the request that its producer makes next. While a step is carried out on one
generator, the world is known from the one before it, the generator and the events. -/

namespace Coroutine

variable {C : Type}

namespace World

variable {w : World C} {g k : GeneratorId} {x : Generator C} {h : List Event}

/-- The world in which `g` is `x` and these events have happened. -/
def put (w : World C) (g : GeneratorId) (x : Generator C) (h : List Event) : World C :=
  { w with generators := w.generators.modify g fun _ => x, history := h }

theorem put_self (w : World C) (g : GeneratorId) : w.put g (w.generator g) w.history = w := by
  have hsame := modify_eq_self (w := w) (g := g) (φ := fun _ => w.generator g) rfl
  exact hsame

@[simp] theorem handles_put : (w.put g x h).handles = w.handles := rfl

@[simp] theorem stackMemory_put : (w.put g x h).stackMemory = w.stackMemory := rfl

@[simp] theorem ledger_put : (w.put g x h).ledger = w.ledger := rfl

@[simp] theorem size_put : (w.put g x h).generators.size = w.generators.size := Array.size_modify

theorem generator_put (hlt : g < w.generators.size) : (w.put g x h).generator g = x :=
  generator_modify_self (w := { w with history := h }) hlt _

theorem generator_put_of_ne (hne : k ≠ g) : (w.put g x h).generator k = w.generator k :=
  generator_modify_of_ne (w := { w with history := h }) hne _

@[simp] theorem modify_put (φ : Generator C → Generator C) :
    (w.put g x h).modify g φ = w.put g (φ x) h := by
  have hgen : (w.generators.modify g fun _ => x).modify g φ =
      w.generators.modify g fun _ => φ x := by
    refine Array.ext (by simp) fun i hi hi' => ?_
    simp only [Array.getElem_modify]
    split <;> rfl
  simp only [put, modify, hgen]

@[simp] theorem retain_put :
    (w.put g x h).retain g = w.put g { x with handles := x.handles + 1 } h :=
  modify_put _

@[simp] theorem log_put (r : Record) : (w.put g x h).log r = w.put g x (.logged r :: h) := rfl

/-- An error that reports no exception leaves the ledger as it is. -/
theorem report_of_none {e : OpError} (he : e.exception? = none) :
    w.report e = (⟨e, 0, []⟩, w) := by
  simp [report, Ledger.report, he]

/-- The generators that have a handle, counted by identity. -/
theorem alive_eq_countP (w : World C) :
    w.alive = (List.range w.generators.size).countP fun g => 0 < (w.generator g).handles := by
  have hlist : w.generators.toList = (List.range w.generators.size).map w.generator := by
    refine List.ext_getElem (by simp) fun i hi hi' => ?_
    have hlt : i < w.generators.size := hi
    simp [generator, hlt]
  rw [alive, ← Array.countP_toList, hlist, List.countP_map]
  rfl

theorem alive_le_of_unheld {w' : World C} (hsize : w'.generators.size = w.generators.size)
    (hunheld : ∀ g < w.generators.size, (w.generator g).handles = 0 →
      (w'.generator g).handles = 0) : w'.alive ≤ w.alive := by
  rw [alive_eq_countP, alive_eq_countP, hsize]
  refine List.countP_mono_left fun g hg hheld => ?_
  simp only [decide_eq_true_eq] at hheld ⊢
  by_contra hnone
  have hgone := hunheld g (List.mem_range.mp hg) (Nat.eq_zero_of_not_pos hnone)
  exact absurd hgone (Nat.ne_of_gt hheld)

theorem alive_of_held (hheld : ∀ g < w.generators.size, 0 < (w.generator g).handles) :
    w.alive = w.generators.size := by
  rw [alive_eq_countP, List.countP_eq_length.mpr, List.length_range]
  exact fun g hg => decide_eq_true (hheld g (List.mem_range.mp hg))

end World

namespace Machine

variable {P : Program C} {m : Machine C}

/-- A machine at rest makes no difference between its moves. -/
theorem run_succ (P : Program C) (n : Nat) (m : Machine C) :
    run P (n + 1) m = run P n (m.next P) := by
  rw [run]
  split
  · next h => rw [next_eq_self_of_atRest P h, run_of_atRest P h]
  · rfl

theorem run_zero (P : Program C) (m : Machine C) : run P 0 m = m := rfl

/-- As long as no generator is made, no more of them have handles. -/
theorem alive_next_le (h : Reachable P m)
    (hsize : (m.next P).world.generators.size = m.world.generators.size) :
    (m.next P).world.alive ≤ m.world.alive :=
  World.alive_le_of_unheld hsize fun _ hg hnone => unheld_next P h.sound hg hnone

theorem alive_run_le (h : Reachable P m) {n : Nat}
    (hsize : (run P n m).world.generators.size = m.world.generators.size) :
    (run P n m).world.alive ≤ m.world.alive := by
  induction n generalizing m with
  | zero => exact Nat.le_refl _
  | succ n ih =>
    rw [run_succ] at hsize ⊢
    have hfirst : m.world.generators.size ≤ (m.next P).world.generators.size := size_le_next m
    have hrest : (m.next P).world.generators.size ≤
        (run P n (m.next P)).world.generators.size := size_le_of_leads (leads_run P n _)
    exact (ih h.move (by omega)).trans (alive_next_le h (by omega))

end Machine

namespace Session

open Machine

variable {P : Program C} {w w' : World C} {s : Step C} {r : Reply}

/-- In this world a session can make a step. -/
def Ready (P : Program C) (w : World C) : Prop := ∀ s, Reachable P ⟨w, .task (.step s), []⟩

/-- The step is over after so few moves that a session waits for it, with this reply, in this world. -/
def Replies (P : Program C) (w : World C) (s : Step C) (r : Reply) (w' : World C) : Prop :=
  ∃ n ≤ ampleMoves, run P n ⟨w, .task (.step s), []⟩ = ⟨w', .answer (.reply r), []⟩

theorem Replies.run (h : Replies P w s r w') :
    ∃ n, ∀ k, n ≤ k → Machine.run P k ⟨w, .task (.step s), []⟩ = ⟨w', .answer (.reply r), []⟩ := by
  obtain ⟨n, -, hrun⟩ := h
  refine ⟨n, fun k hk => ?_⟩
  rw [run_eq_of_le P hk (by rw [hrun]; rfl), hrun]

theorem Replies.perform (h : Replies P w s r w') : perform P w s = (r, w') := by
  obtain ⟨n, hn, hrun⟩ := h
  rw [Session.perform, run_eq_of_le P hn (by rw [hrun]; rfl), hrun]
  rfl

theorem Replies.ready (h : Replies P w s r w') (hready : Ready P w) : Ready P w' := by
  obtain ⟨n, -, hrun⟩ := h
  have hlast := (hready s).leads (leads_run P n _)
  rw [hrun] at hlast
  exact fun s => hlast.again s ⟨rfl, .inl ⟨_, rfl⟩⟩

/-- While a step is carried out that makes no generator, no more of them have handles than before. -/
theorem Replies.alive_le (h : Replies P w s r w') (hready : Ready P w)
    (hsize : w'.generators.size = w.generators.size) (k : Nat) :
    (Machine.run P k ⟨w, .task (.step s), []⟩).world.alive ≤ w.alive := by
  refine alive_run_le (hready s) ?_
  obtain ⟨n, hrun⟩ := h.run
  have hbefore := size_le_of_leads (leads_run P k ⟨w, .task (.step s), []⟩)
  have hafter := size_le_of_leads (leads_run P n (Machine.run P k ⟨w, .task (.step s), []⟩))
  rw [← run_add, hrun _ (Nat.le_add_left n k)] at hafter
  exact Nat.le_antisymm (hafter.trans (Nat.le_of_eq hsize)) hbefore

theorem Replies.alive_last (h : Replies P w s r w') (hready : Ready P w)
    (hsize : w'.generators.size = w.generators.size) : w'.alive ≤ w.alive := by
  obtain ⟨n, hrun⟩ := h.run
  have hlast := h.alive_le hready hsize n
  rwa [hrun n (Nat.le_refl n)] at hlast

end Session

namespace Recursion

open Machine Session

variable {w : World Code} {g : GeneratorId} {name : String} {h : List Event} {stackSize : Nat}
  {c : Code} {k : Except Exception (Option Value) → Code}

/-! ### What a generator of the recursion looks like -/

/-- It was never resumed. -/
def fresh (stackSize : Nat) (c : Code) : Generator Code := .ofDefinition (triangular stackSize c) []

/-- Its producer is suspended. -/
def waiting (stackSize : Nat) (k : Except Exception (Option Value) → Code) : Generator Code :=
  { fresh stackSize .missing with
    status := .running
    entry := none
    payloadHeld := true
    fiber := some ⟨stackSize, .suspended k [] []⟩ }

/-- Control is inside its producer. -/
def entered (stackSize : Nat) : Generator Code :=
  { fresh stackSize .missing with
    status := .running
    entry := none
    payloadHeld := true
    running := true
    fiber := some ⟨stackSize, .active⟩
    handles := 2 }

/-- Its producer has returned. -/
def spent (stackSize : Nat) : Generator Code :=
  { fresh stackSize .missing with
    status := .finished
    entry := none
    payload := none
    cleanup := none }

/-- The frames under the code of a producer that a session has resumed. -/
def stack (g : GeneratorId) : List (Frame Code) :=
  [.closure [], .driving g, .reporting, .holding g]

/-! ### Into a producer, and out of it again -/

section

attribute [local simp] run_succ run_zero next Machine.perform makeStep operate task resume World.apply
  transition fresh waiting entered spent triangular Generator.ofDefinition stack stackFiber deliver
  answer progress reportProgress reply code Machine.yield splitFiber suspended terminated finalize
  releaseEntry releasePayload Generator.emptySlots release dropHandle Machine.drive wake start
  endProducer leaveProducer grant program

variable (stackSize)

theorem run_start (hfind : w.handles.find? name = some g) (hlt : g < w.generators.size)
    (hrange : stackSizeInRange stackSize = true) (hmemory : stackSize ≤ w.stackMemory) :
    ∃ h', run program 4 ⟨w.put g (fresh stackSize c) h, .task (.step (.resume name none)), []⟩ =
      ⟨w.put g (entered stackSize) h', .code c, stack g⟩ := by
  have hmemory : ¬ w.stackMemory < stackSize := Nat.not_lt_of_le hmemory
  simp [hfind, World.generator_put hlt, hrange, hmemory]

theorem run_send (hfind : w.handles.find? name = some g) (hlt : g < w.generators.size)
    (sent : Option Value) :
    ∃ h', run program 4 ⟨w.put g (waiting stackSize k) h, .task (.step (.resume name sent)), []⟩ =
      ⟨w.put g (entered stackSize) h', .code (k (.ok sent)), stack g⟩ := by
  cases sent <;> simp [hfind, World.generator_put hlt]

theorem run_yield {v : Value} (hc : c.request = .yield v k) (hlt : g < w.generators.size) :
    ∃ h', run program 6 ⟨w.put g (entered stackSize) h, .code c, stack g⟩ =
      ⟨w.put g (waiting stackSize k) h', .answer (.reply (.yielded v)), []⟩ := by
  simp [hc, World.generator_put hlt]

theorem run_return {v : Value} (hc : c.request = .finish (.ok v)) (hlt : g < w.generators.size) :
    ∃ h', run program 14 ⟨w.put g (entered stackSize) h, .code c, stack g⟩ =
      ⟨w.put g (spent stackSize) h', .answer (.reply (.returned v)), []⟩ := by
  simp [hc, World.generator_put hlt]

theorem run_exhausted (hfind : w.handles.find? name = some g) (hlt : g < w.generators.size) :
    ∃ h', run program 6 ⟨w.put g (spent stackSize) h, .task (.step (.resume name none)), []⟩ =
      ⟨w.put g (spent stackSize) h',
        .answer (.reply (.failed ⟨.exhausted "triangular", 0, []⟩)), []⟩ := by
  have hreport (w : World Code) := World.report_of_none (w := w) (e := .exhausted "triangular") rfl
  simp [hfind, World.generator_put hlt, hreport]

theorem run_refused (hfind : w.handles.find? name = some g) (hlt : g < w.generators.size)
    (hrange : stackSizeInRange stackSize = false) :
    ∃ h', run program 7 ⟨w.put g (fresh stackSize c) h, .task (.step (.resume name none)), []⟩ =
      ⟨w.put g (fresh stackSize c) h',
        .answer (.reply (.failed ⟨.fiberAllocation "triangular" stackSize, 0, []⟩)), []⟩ := by
  have hreport (w : World Code) :=
    World.report_of_none (w := w) (e := .fiberAllocation "triangular" stackSize) rfl
  simp [hfind, World.generator_put hlt, hrange, hreport]

end

end Recursion

end Coroutine
