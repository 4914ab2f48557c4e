import Coroutine.Proofs.Execution

/-! Recursion with generators. Main statement: a producer that recurses on its own stack and a driver that
keeps one generator for each level compute the same sum, and the driver has as many generators alive at
once as there are levels, and never more. -/

namespace Coroutine.Recursion

open Machine Session

/-! ### Arithmetic -/

/-- The sum of the numbers up to `n`. -/
def triangle (n : Nat) : Nat := n * (n + 1) / 2

theorem triangle_succ (n : Nat) : triangle (n + 1) = n + 1 + triangle n := by
  have hsum : (n + 1) * (n + 1 + 1) = n * (n + 1) + (n + 1) * 2 := by ring
  rw [triangle, hsum, Nat.add_mul_div_right _ _ (by decide), triangle, Nat.add_comm]

/-- A sum that fits into a word is one of few numbers. -/
theorem lt_of_triangle_lt {n : Nat} (h : triangle n < 2 ^ 64) : n < 2 ^ 33 := by
  by_contra hlarge
  have hn : 2 ^ 33 ≤ n := Nat.le_of_not_lt hlarge
  have hproduct : 2 ^ 33 * 2 ^ 33 ≤ n * (n + 1) := Nat.mul_le_mul hn (Nat.le_succ_of_le hn)
  rw [triangle] at h
  omega

theorem nameAt_inj {a b : Nat} : nameAt a = nameAt b ↔ a = b := by
  refine ⟨fun h => ?_, congrArg nameAt⟩
  have hdigits := congrArg (Nat.ofDigitChars 10 ·.toList 0) h
  simpa [nameAt, Nat.repr] using hdigits

variable {w w₁ w₂ : World Code} {g : GeneratorId} {name : String} {stackSize n d : Nat} {c : Code}
  {k : Except Exception (Option Value) → Code} {v : Value}

/-! ### Steps of the driver -/

/-- The world in which a new generator has got a name. -/
def making (w : World Code) (name : String) (stackSize : Nat) (c : Code) : World Code :=
  { w with
    generators := w.generators.push (fresh stackSize c)
    handles := w.handles.insert name w.generators.size }

theorem find?_making_self :
    (making w name stackSize c).handles.find? name = some w.generators.size := by
  simp [making]

theorem generator_making_self :
    (making w name stackSize c).generator w.generators.size = fresh stackSize c := by
  simp [making, World.generator]

theorem generator_making_of_lt (hlt : g < w.generators.size) :
    (making w name stackSize c).generator g = w.generator g := by
  simp [making, World.generator, Array.getElem?_push, Nat.ne_of_lt hlt]

theorem next_create (hfree : w.handles.find? name = none) :
    next program ⟨w, .task (.step (.create name (triangular stackSize c))), []⟩ =
      ⟨making w name stackSize c, .answer (.reply .ok), []⟩ := by
  simp [next, Machine.perform, makeStep, World.addGenerator, World.holdGuards, triangular, nameHandle,
    hfree, making, fresh, answer]

theorem replies_create (stackSize : Nat) (c : Code) (hfree : w.handles.find? name = none) :
    Replies program w (.create name (triangular stackSize c)) .ok (making w name stackSize c) :=
  ⟨1, by decide, by rw [run_succ, next_create hfree, run_zero]⟩

/-- The resumption of a generator begins with what the generator looks like. -/
theorem put_of_eq {x : Generator Code} (hg : w.generator g = x) : w.put g x w.history = w :=
  hg ▸ w.put_self g

theorem replies_start_yield (hc : c.request = .yield v k) (hfind : w.handles.find? name = some g)
    (hlt : g < w.generators.size) (hg : w.generator g = fresh stackSize c)
    (hrange : stackSizeInRange stackSize = true) (hmemory : stackSize ≤ w.stackMemory) :
    ∃ h, Replies program w (.resume name none) (.yielded v) (w.put g (waiting stackSize k) h) := by
  obtain ⟨h, hstart⟩ := run_start stackSize (c := c) (h := w.history) hfind hlt hrange hmemory
  obtain ⟨h', hyield⟩ := run_yield stackSize (h := h) hc hlt
  rw [put_of_eq hg] at hstart
  exact ⟨h', 4 + 6, by decide, by rw [run_add, hstart, hyield]⟩

theorem replies_start_return (hc : c.request = .finish (.ok v))
    (hfind : w.handles.find? name = some g) (hlt : g < w.generators.size)
    (hg : w.generator g = fresh stackSize c) (hrange : stackSizeInRange stackSize = true)
    (hmemory : stackSize ≤ w.stackMemory) :
    ∃ h, Replies program w (.resume name none) (.returned v) (w.put g (spent stackSize) h) := by
  obtain ⟨h, hstart⟩ := run_start stackSize (c := c) (h := w.history) hfind hlt hrange hmemory
  obtain ⟨h', hreturn⟩ := run_return stackSize (h := h) hc hlt
  rw [put_of_eq hg] at hstart
  exact ⟨h', 4 + 14, by decide, by rw [run_add, hstart, hreturn]⟩

theorem replies_send {sent : Option Value} (hc : (k (.ok sent)).request = .finish (.ok v))
    (hfind : w.handles.find? name = some g) (hlt : g < w.generators.size)
    (hg : w.generator g = waiting stackSize k) :
    ∃ h, Replies program w (.resume name sent) (.returned v) (w.put g (spent stackSize) h) := by
  obtain ⟨h, hsend⟩ := run_send stackSize (k := k) (h := w.history) hfind hlt sent
  obtain ⟨h', hreturn⟩ := run_return stackSize (h := h) hc hlt
  rw [put_of_eq hg] at hsend
  exact ⟨h', 4 + 14, by decide, by rw [run_add, hsend, hreturn]⟩

theorem replies_exhausted (stackSize : Nat) (hfind : w.handles.find? name = some g)
    (hlt : g < w.generators.size) (h : List Event) :
    ∃ h', Replies program (w.put g (spent stackSize) h) (.resume name none)
      (.failed ⟨.exhausted "triangular", 0, []⟩) (w.put g (spent stackSize) h') := by
  obtain ⟨h', hrun⟩ := run_exhausted stackSize (h := h) hfind hlt
  exact ⟨h', 6, by decide, hrun⟩

theorem replies_refused (hfind : w.handles.find? name = some g) (hlt : g < w.generators.size)
    (hrange : stackSizeInRange stackSize = false) (h : List Event) :
    ∃ h', Replies program (w.put g (fresh stackSize c) h) (.resume name none)
      (.failed ⟨.fiberAllocation "triangular" stackSize, 0, []⟩) (w.put g (fresh stackSize c) h') := by
  obtain ⟨h', hrun⟩ := run_refused stackSize (c := c) (h := h) hfind hlt hrange
  exact ⟨h', 7, by decide, hrun⟩

/-- The world in which the only handle of a generator is gone. -/
def dropping (w : World Code) (name : String) (g : GeneratorId) (stackSize : Nat) : World Code :=
  { w.put g { spent stackSize with handles := 0 } w.history with handles := w.handles.erase name }

theorem replies_drop (hfind : w.handles.find? name = some g) (hlt : g < w.generators.size)
    (hg : w.generator g = spent stackSize) :
    Replies program w (.drop name) .ok (dropping w name g stackSize) := by
  have hlt' : g < ({ w with handles := w.handles.erase name } : World Code).generators.size := hlt
  have hg' : ({ w with handles := w.handles.erase name } : World Code).generator g =
      spent stackSize := hg
  have hdrop : next program ⟨w, .task (.step (.drop name)), []⟩ =
      ⟨({ w with handles := w.handles.erase name } : World Code).put g (spent stackSize) w.history,
        .task (.dropHandle g), [.keeping (.reply .ok)]⟩ := by
    rw [put_of_eq (w := { w with handles := w.handles.erase name }) hg]
    simp [next, Machine.perform, makeStep, hfind, task]
  refine ⟨3, by decide, ?_⟩
  rw [run_succ, hdrop]
  simp [run_succ, run_zero, next, Machine.perform, dropHandle, World.generator_put hlt', spent, fresh,
    triangular, Generator.ofDefinition, answer, deliver, dropping]
  rfl

/-! ### One stack -/

/-- How the producer goes on that was suspended at the bottom of the recursion. -/
def climb (pending : List Nat) : Except Exception (Option Value) → Code
  | .ok _ => .ascend 0 pending
  | .error e => .finish (.error e)

/-- On the way down the numbers up to `n` become pending, -/
theorem run_descend (n : Nat) (pending : List Nat) : ∃ pending', pending'.length = n + pending.length ∧
    pending'.sum = triangle n + pending.sum ∧ ∀ (w : World Code) (fs : List (Frame Code)),
      run program n ⟨w, .code (.descend n pending), fs⟩ = ⟨w, .code (.descend 0 pending'), fs⟩ := by
  induction n generalizing pending with
  | zero => exact ⟨pending, by simp, by simp [triangle], fun _ _ => rfl⟩
  | succ n ih =>
    obtain ⟨pending', hlength, hsum, hrun⟩ := ih ((n + 1) :: pending)
    refine ⟨pending', ?_, ?_, fun w fs => ?_⟩
    · rw [hlength, List.length_cons]
      omega
    · rw [hsum, List.sum_cons, triangle_succ]
      omega
    · rw [run_succ]
      exact hrun w fs

/-- and on the way up they are added. -/
theorem run_ascend (pending : List Nat) (sum : Int) (w : World Code) (fs : List (Frame Code)) :
    run program pending.length ⟨w, .code (.ascend sum pending), fs⟩ =
      ⟨w, .code (.ascend (sum + pending.sum) []), fs⟩ := by
  induction pending generalizing sum with
  | nil => simp [run_zero]
  | cons n pending ih =>
    have hnext : next program ⟨w, .code (.ascend sum (n :: pending)), fs⟩ =
        ⟨w, .code (.ascend (n + sum) pending), fs⟩ := rfl
    have hsum : (n : Int) + sum + pending.sum = sum + (n :: pending).sum := by
      push_cast [List.sum_cons]
      ring
    rw [List.length_cons, run_succ, hnext, ih, hsum]

theorem map_reply_performAll_cons {s : Step Code} {r : Reply} {rest : List (Step Code)}
    (h : Replies program w s r w₁) :
    (performAll program w (s :: rest)).1.map StepReport.reply =
      r :: (performAll program w₁ rest).1.map StepReport.reply := by
  simp [performAll, h.perform]

theorem onStack_eq {stackMemory : Nat} (hn : triangle n < 2 ^ 64)
    (hrange : stackSizeInRange stackSize = true) (hmemory : stackSize ≤ stackMemory) :
    onStack stackMemory n stackSize = [.yielded (.int 0), .returned (.int (triangle n)),
      .failed ⟨.exhausted "triangular", 0, []⟩] := by
  have hfew := lt_of_triangle_lt hn
  let w₀ : World Code := { stackMemory }
  let w₁ := making w₀ "g" stackSize (.descend n [])
  have hfind : w₁.handles.find? "g" = some 0 := rfl
  obtain ⟨pending, hlength, hsum, hdescend⟩ := run_descend n []
  have hfirst : ∃ h, Replies program w₁ (.resume "g" none) (.yielded (.int 0))
      (w₁.put 0 (waiting stackSize (climb pending)) h) := by
    obtain ⟨h, hstart⟩ := run_start stackSize (c := .descend n []) (h := w₁.history) hfind
      Nat.one_pos hrange hmemory
    obtain ⟨h', hyield⟩ := run_yield stackSize (w := w₁) (g := 0) (h := h) (c := .descend 0 pending)
      (k := climb pending) rfl Nat.one_pos
    rw [put_of_eq (x := fresh stackSize (.descend n [])) rfl] at hstart
    refine ⟨h', 4 + (n + 6), ?_, by rw [run_add, hstart, run_add, hdescend, hyield]⟩
    rw [ampleMoves]
    omega
  obtain ⟨h₁, hfirst⟩ := hfirst
  have hsecond : ∃ h, Replies program (w₁.put 0 (waiting stackSize (climb pending)) h₁)
      (.resume "g" none) (.returned (.int (triangle n))) (w₁.put 0 (spent stackSize) h) := by
    obtain ⟨h, hsend⟩ := run_send stackSize (k := climb pending) (h := h₁) hfind Nat.one_pos none
    obtain ⟨h', hreturn⟩ := run_return stackSize (w := w₁) (g := 0) (h := h)
      (c := .ascend (0 + pending.sum) []) rfl Nat.one_pos
    refine ⟨h', 4 + (pending.length + 14), ?_, ?_⟩
    · rw [ampleMoves, hlength, List.length_nil]
      omega
    · rw [run_add, hsend, run_add, climb, run_ascend, hreturn, hsum, List.sum_nil]
      simp
  obtain ⟨h₂, hsecond⟩ := hsecond
  obtain ⟨h₃, hthird⟩ := replies_exhausted stackSize hfind Nat.one_pos h₂
  rw [onStack, map_reply_performAll_cons (replies_create (w := w₀) _ _ rfl),
    map_reply_performAll_cons hfirst, map_reply_performAll_cons hsecond,
    map_reply_performAll_cons hthird]
  rfl

theorem onStack_of_outOfRange {stackMemory : Nat} (hrange : stackSizeInRange stackSize = false) :
    onStack stackMemory n stackSize =
      List.replicate 3 (.failed ⟨.fiberAllocation "triangular" stackSize, 0, []⟩) := by
  let w₀ : World Code := { stackMemory }
  let w₁ := making w₀ "g" stackSize (.descend n [])
  have hfind : w₁.handles.find? "g" = some 0 := rfl
  have hrefused := replies_refused (c := .descend n []) hfind Nat.one_pos hrange
  obtain ⟨h₁, hfirst⟩ := hrefused w₁.history
  obtain ⟨h₂, hsecond⟩ := hrefused h₁
  obtain ⟨h₃, hthird⟩ := hrefused h₂
  rw [put_of_eq (x := fresh stackSize (.descend n [])) rfl] at hfirst
  rw [onStack, map_reply_performAll_cons (replies_create (w := w₀) _ _ rfl),
    map_reply_performAll_cons hfirst, map_reply_performAll_cons hsecond,
    map_reply_performAll_cons hthird]
  rfl

/-! ### One generator for each level -/

/-- How the producer of a level goes on that asked for the sum up to `n`. -/
def addTo (n : Nat) : Except Exception (Option Value) → Code
  | .ok (some (.int sum)) => .finish (.ok (.int ((n + 1 : Nat) + sum)))
  | .ok _ => .missing
  | .error e => .finish (.error e)

theorem request_level_succ (n : Nat) : (Code.level (n + 1)).request = .yield (.int n) (addTo n) := rfl

/-- The steps that the driver's loop performs, each with the world in which it performs it. -/
def performances (stackSize : Nat) : Nat → World Code → Nat → Reply → List (World Code × Step Code)
  | 0, _, _, _ => []
  | fuel + 1, w, depth, r =>
    match r, depth with
    | .yielded (.int n), _ =>
      let create := .create (nameAt (depth + 1)) (triangular stackSize (.level n.toNat))
      let (_, w₁) := perform program w create
      let (r, w₂) := perform program w₁ (.resume (nameAt (depth + 1)) none)
      (w, create) :: (w₁, .resume (nameAt (depth + 1)) none) ::
        performances stackSize fuel w₂ (depth + 1) r
    | .returned v, depth + 1 =>
      let (_, w₁) := perform program w (.drop (nameAt (depth + 1)))
      let (r, w₂) := perform program w₁ (.resume (nameAt depth) (some v))
      (w, .drop (nameAt (depth + 1))) :: (w₁, .resume (nameAt depth) (some v)) ::
        performances stackSize fuel w₂ depth r
    | _, _ => []

/-- All steps that the driver performs. -/
def course (stackMemory n stackSize : Nat) : List (World Code × Step Code) :=
  let create := .create (nameAt 0) (triangular stackSize (.level n))
  let (_, w₁) := perform program { stackMemory } create
  let (r, w₂) := perform program w₁ (.resume (nameAt 0) none)
  ({ stackMemory }, create) :: (w₁, .resume (nameAt 0) none) ::
    performances stackSize (2 * n + 2) w₂ 0 r

/-- As long as the step is carried out at most so many generators are alive. -/
def AliveAtMost (most : Nat) (p : World Code × Step Code) : Prop :=
  ∀ k, (run program k ⟨p.1, .task (.step p.2), []⟩).world.alive ≤ most

/-- The generators of the first `d` levels have asked for the sum that the next level computes. The first
level computes the sum up to `n`. -/
structure Asking (n stackSize d : Nat) (w : World Code) : Prop where
  ready : Ready program w
  memory : stackSize ≤ w.stackMemory
  waiting : ∀ i < d, w.generator i = waiting stackSize (addTo (n - i - 1))
  named : ∀ i < d, w.handles.find? (nameAt i) = some i

/-- No generator has been made for the other levels, -/
structure Descending (n stackSize d : Nat) (w : World Code) : Prop extends Asking n stackSize d w where
  size : w.generators.size = d
  free : ∀ i, d ≤ i → w.handles.find? (nameAt i) = none

/-- or only for the next one, -/
structure Starting (n stackSize d : Nat) (w : World Code) : Prop extends Asking n stackSize d w where
  size : w.generators.size = d + 1
  top : w.handles.find? (nameAt d) = some d
  fresh : w.generator d = fresh stackSize (.level (n - d))
  free : ∀ i, d < i → w.handles.find? (nameAt i) = none

/-- or the generator of the next one has returned. -/
structure Ascending (n stackSize d : Nat) (w : World Code) : Prop extends Asking n stackSize d w where
  top : w.handles.find? (nameAt d) = some d
  spent : w.generator d = spent stackSize

theorem Asking.of_generators (h : Asking n stackSize d w) {w' : World Code} {d' : Nat} (hd : d' ≤ d)
    (hready : Ready program w') (hmemory : w'.stackMemory = w.stackMemory)
    (hgenerators : ∀ i < d', w'.generator i = w.generator i)
    (hnamed : ∀ i < d', w'.handles.find? (nameAt i) = w.handles.find? (nameAt i)) :
    Asking n stackSize d' w' where
  ready := hready
  memory := hmemory ▸ h.memory
  waiting i hi := by rw [hgenerators i hi, h.waiting i (Nat.lt_of_lt_of_le hi hd)]
  named i hi := by rw [hnamed i hi, h.named i (Nat.lt_of_lt_of_le hi hd)]

theorem nameAt_ne {a b : Nat} (h : a < b) : nameAt a ≠ nameAt b :=
  fun heq => Nat.ne_of_lt h (nameAt_inj.mp heq)

/-! ### The way down -/

theorem Descending.alive (h : Descending n stackSize d w) : w.alive = d := by
  rw [World.alive_of_held, h.size]
  intro g hg
  rw [h.waiting g (h.size ▸ hg)]
  exact Nat.one_pos

/-- The generator of a new level is made. -/
theorem Descending.starting (h : Descending n stackSize d w) :
    Starting n stackSize d (making w (nameAt d) stackSize (.level (n - d))) where
  toAsking := by
    have hcreate := replies_create stackSize (.level (n - d)) (h.free d (Nat.le_refl d))
    refine h.toAsking.of_generators (Nat.le_refl d) (hcreate.ready h.ready) rfl (fun i hi => ?_)
      fun i hi => ?_
    · exact generator_making_of_lt (h.size ▸ hi)
    · simp [making, nameAt_ne hi]
  size := by simp [making, h.size]
  top := by simp [making, h.size]
  fresh := by
    rw [← h.size]
    exact generator_making_self
  free i hi := by simp [making, (nameAt_ne hi).symm, h.free i (Nat.le_of_lt hi)]

/-- Every generator has a handle then, and keeps it while the new one is resumed. -/
theorem Starting.alive_put (h : Starting n stackSize d w) {x : Generator Code} {es : List Event}
    (hx : 0 < x.handles) : (w.put d x es).alive = d + 1 := by
  have hlt : d < w.generators.size := h.size ▸ Nat.lt_succ_self d
  rw [World.alive_of_held, World.size_put, h.size]
  intro g hg
  rw [World.size_put, h.size] at hg
  rcases Nat.lt_succ_iff_lt_or_eq.mp hg with hg | rfl
  · rw [World.generator_put_of_ne (Nat.ne_of_lt hg), h.waiting g hg]
    exact Nat.one_pos
  · rw [World.generator_put hlt]
    exact hx

theorem Starting.alive (h : Starting n stackSize d w) : w.alive = d + 1 := by
  rw [← put_of_eq h.fresh]
  exact h.alive_put Nat.one_pos

theorem Descending.aliveAtMost_create (h : Descending n stackSize d w) :
    AliveAtMost (d + 1) (w, .create (nameAt d) (triangular stackSize (.level (n - d)))) := by
  intro k
  cases k with
  | zero => exact h.alive ▸ Nat.le_succ _
  | succ k =>
    rw [run_succ, next_create (h.free d (Nat.le_refl d)), run_of_atRest _ rfl]
    exact Nat.le_of_eq h.starting.alive

theorem Asking.put (h : Asking n stackSize d w) {x : Generator Code} {es : List Event}
    (hready : Ready program (w.put d x es)) : Asking n stackSize d (w.put d x es) :=
  h.of_generators (Nat.le_refl d) hready rfl
    (fun _ hi => World.generator_put_of_ne (Nat.ne_of_lt hi)) fun _ _ => rfl

/-- The generator of a new level is resumed, and asks for a sum or returns its own. -/
theorem Starting.exists_resume (h : Starting n stackSize d w) (hd : d ≤ n)
    (hrange : stackSizeInRange stackSize = true) :
    ∃ w' r, Replies program w (.resume (nameAt d) none) r w' ∧ w'.alive = d + 1 ∧
      AliveAtMost (d + 1) (w, .resume (nameAt d) none) ∧
      (d < n ∧ r = .yielded (.int (n - (d + 1) : Nat)) ∧ Descending n stackSize (d + 1) w' ∨
        d = n ∧ r = .returned (.int 0) ∧ Ascending n stackSize d w') := by
  have hlt : d < w.generators.size := h.size ▸ Nat.lt_succ_self d
  have hmost {x : Generator Code} {es : List Event} {r : Reply}
      (hresume : Replies program w (.resume (nameAt d) none) r (w.put d x es)) :
      AliveAtMost (d + 1) (w, .resume (nameAt d) none) :=
    fun k => (hresume.alive_le h.ready World.size_put k).trans (Nat.le_of_eq h.alive)
  rcases Nat.lt_or_eq_of_le hd with hlower | rfl
  · have hlevel : (Code.level (n - d)).request =
        .yield (.int (n - (d + 1) : Nat)) (addTo (n - (d + 1))) := by
      rw [show n - d = n - (d + 1) + 1 by omega, request_level_succ]
    obtain ⟨es, hresume⟩ := replies_start_yield hlevel h.top hlt h.fresh hrange h.memory
    have hbelow := h.toAsking.put (hresume.ready h.ready)
    refine ⟨_, _, hresume, h.alive_put Nat.one_pos, hmost hresume,
      .inl ⟨hlower, rfl, ⟨hbelow.ready, hbelow.memory, fun i hi => ?_, fun i hi => ?_⟩, ?_, h.free⟩⟩
    · rcases Nat.lt_succ_iff_lt_or_eq.mp hi with hi | rfl
      · exact hbelow.waiting i hi
      · rw [World.generator_put hlt, Nat.sub_sub]
    · rcases Nat.lt_succ_iff_lt_or_eq.mp hi with hi | rfl
      · exact hbelow.named i hi
      · exact h.top
    · rw [World.size_put, h.size]
  · have hlevel : (Code.level (d - d)).request = .finish (.ok (.int 0)) := by
      rw [Nat.sub_self]
      rfl
    obtain ⟨es, hresume⟩ := replies_start_return hlevel h.top hlt h.fresh hrange h.memory
    exact ⟨_, _, hresume, h.alive_put Nat.one_pos, hmost hresume, .inr ⟨rfl, rfl,
      h.toAsking.put (hresume.ready h.ready), h.top, World.generator_put hlt⟩⟩

/-! ### The way up -/

/-- The sum that was computed last is sent to the generator below. -/
theorem Ascending.exists_send (h : Ascending n stackSize (d + 1) w) (hd : d + 1 ≤ n) :
    ∃ w₁ w₂, Replies program w (.drop (nameAt (d + 1))) .ok w₁ ∧
      Replies program w₁ (.resume (nameAt d) (some (.int (triangle (n - (d + 1))))))
        (.returned (.int (triangle (n - d)))) w₂ ∧
      AliveAtMost w.alive (w, .drop (nameAt (d + 1))) ∧
      AliveAtMost w.alive (w₁, .resume (nameAt d) (some (.int (triangle (n - (d + 1)))))) ∧
      w₂.alive ≤ w.alive ∧ Ascending n stackSize d w₂ := by
  have hlt : d + 1 < w.generators.size := w.lt_size_of_handles (by rw [h.spent]; exact Nat.one_pos)
  have hdrop := replies_drop h.top hlt h.spent
  have hready := hdrop.ready h.ready
  have hsize : (dropping w (nameAt (d + 1)) (d + 1) stackSize).generators.size =
      w.generators.size := World.size_put (h := w.history)
  have hasking : Asking n stackSize (d + 1) (dropping w (nameAt (d + 1)) (d + 1) stackSize) :=
    h.toAsking.of_generators (Nat.le_refl _) hready rfl
      (fun _ hi => World.generator_put_of_ne (w := w) (h := w.history) (Nat.ne_of_lt hi))
      fun i hi => by simp [dropping, nameAt_ne hi]
  have hsum : (addTo (n - d - 1) (.ok (some (.int (triangle (n - (d + 1))))))).request =
      .finish (.ok (.int (triangle (n - d)))) := by
    have htriangle := triangle_succ (n - (d + 1))
    rw [show n - (d + 1) + 1 = n - d by omega] at htriangle
    rw [htriangle, Nat.sub_sub, show n - d = n - (d + 1) + 1 by omega]
    rfl
  have hlt' : d < (dropping w (nameAt (d + 1)) (d + 1) stackSize).generators.size := by omega
  obtain ⟨es, hsend⟩ := replies_send hsum (hasking.named d (Nat.lt_succ_self d)) hlt'
    (hasking.waiting d (Nat.lt_succ_self d))
  have hlast := hdrop.alive_last h.ready hsize
  refine ⟨_, _, hdrop, hsend, hdrop.alive_le h.ready hsize,
    fun k => (hsend.alive_le hready World.size_put k).trans hlast,
    (hsend.alive_last hready World.size_put).trans hlast,
    (hasking.of_generators (Nat.le_succ d) hready rfl (fun _ _ => rfl) fun _ _ => rfl).put
      (hsend.ready hready), hasking.named d (Nat.lt_succ_self d), World.generator_put hlt'⟩

/-- What the driver's loop comes to, from a turn on. -/
structure Sums (n stackSize fuel : Nat) (w : World Code) (d most : Nat) (r : Reply) : Prop where
  result : drive stackSize fuel w d most r = .sum (triangle n) (n + 1)
  alive : ∀ p ∈ performances stackSize fuel w d r, AliveAtMost (n + 1) p

theorem AliveAtMost.mono {a b : Nat} {p : World Code × Step Code} (h : AliveAtMost a p) (hle : a ≤ b) :
    AliveAtMost b p :=
  fun k => (h k).trans hle

/-- On the way up every level adds its number to the sum that it is sent. -/
theorem Ascending.sums (h : Ascending n stackSize d w) (hd : d ≤ n) (halive : w.alive ≤ n + 1)
    {fuel : Nat} (hfuel : d < fuel) :
    Sums n stackSize fuel w d (n + 1) (.returned (.int (triangle (n - d)))) := by
  induction d generalizing w fuel with
  | zero =>
    cases fuel with
    | zero => exact absurd hfuel (Nat.lt_irrefl 0)
    | succ fuel => exact ⟨rfl, nofun⟩
  | succ d ih =>
    cases fuel with
    | zero => exact absurd hfuel (Nat.not_lt_zero _)
    | succ fuel =>
    obtain ⟨w₁, w₂, hdrop, hsend, hmost, hmost', hlast, hbelow⟩ := h.exists_send hd
    have hrest : Sums n stackSize fuel w₂ d (n + 1) _ :=
      ih hbelow (by omega) (hlast.trans halive) (by omega)
    constructor
    · simp only [drive, hdrop.perform, hsend.perform]
      exact hrest.result
    · simp only [performances, hdrop.perform, hsend.perform, List.forall_mem_cons]
      exact ⟨hmost.mono halive, hmost'.mono halive, hrest.alive⟩

/-- The generator of level `d` is made and resumed, and this is what the driver comes to then. -/
structure Launches (n stackSize fuel d : Nat) (w w₁ w₂ : World Code) (r : Reply) : Prop where
  create : Replies program w (.create (nameAt d) (triangular stackSize (.level (n - d)))) .ok w₁
  resume : Replies program w₁ (.resume (nameAt d) none) r w₂
  alive : w₂.alive = d + 1
  createAlive : AliveAtMost (n + 1) (w, .create (nameAt d) (triangular stackSize (.level (n - d))))
  resumeAlive : AliveAtMost (n + 1) (w₁, .resume (nameAt d) none)
  sums : Sums n stackSize fuel w₂ d (d + 1) r
  /-- Sooner or later all levels have a generator. -/
  reached : ∃ p ∈ (w₁, .resume (nameAt d) none) :: performances stackSize fuel w₂ d r,
    p.1.alive = n + 1

/-- On the way down every level asks for the sum that the next one computes. -/
theorem Descending.exists_launches (h : Descending n stackSize d w) (hd : d ≤ n)
    (hrange : stackSizeInRange stackSize = true) (fuel : Nat) (hfuel : 2 * n < fuel + d) :
    ∃ w₁ w₂ r, Launches n stackSize fuel d w w₁ w₂ r := by
  induction hk : n - d using Nat.strong_induction_on generalizing d w fuel with
  | _ k ih =>
  subst hk
  have hcreate := replies_create stackSize (.level (n - d)) (h.free d (Nat.le_refl d))
  have hle : d + 1 ≤ n + 1 := Nat.succ_le_succ hd
  obtain ⟨w₂, r, hresume, halive, hmost, hcases⟩ := h.starting.exists_resume hd hrange
  rcases hcases with ⟨hlower, rfl, hbelow⟩ | ⟨rfl, rfl, htop⟩
  · cases fuel with
    | zero => omega
    | succ fuel =>
    obtain ⟨w₃, w₄, r, hnext⟩ := ih (n - (d + 1)) (by omega) hbelow hlower fuel (by omega) rfl
    have hmax : max (d + 1) (d + 1 + 1) = d + 1 + 1 := Nat.max_eq_right (Nat.le_succ _)
    refine ⟨_, w₂, _, hcreate, hresume, halive, h.aliveAtMost_create.mono hle, hmost.mono hle,
      ⟨?_, ?_⟩, ?_⟩
    · simp only [drive, Int.toNat_natCast, hnext.create.perform, hnext.resume.perform, hnext.alive, hmax]
      exact hnext.sums.result
    · simp only [performances, Int.toNat_natCast, hnext.create.perform, hnext.resume.perform,
        List.forall_mem_cons]
      exact ⟨hnext.createAlive, hnext.resumeAlive, hnext.sums.alive⟩
    · obtain ⟨p, hp, hreached⟩ := hnext.reached
      refine ⟨p, .tail _ ?_, hreached⟩
      simp only [performances, Int.toNat_natCast, hnext.create.perform, hnext.resume.perform]
      exact .tail _ hp
  · have hsums : Sums d stackSize fuel w₂ d (d + 1) _ :=
      htop.sums (Nat.le_refl d) (Nat.le_of_eq halive) (by omega)
    rw [Nat.sub_self] at hsums
    exact ⟨_, w₂, _, hcreate, hresume, halive, h.aliveAtMost_create, hmost, hsums,
      _, .head _, h.starting.alive⟩

theorem descending_start (n stackMemory : Nat) (hmemory : stackSize ≤ stackMemory) :
    Descending n stackSize 0 { stackMemory } where
  ready s := .start stackMemory s
  memory := hmemory
  waiting i hi := absurd hi (Nat.not_lt_zero i)
  named i hi := absurd hi (Nat.not_lt_zero i)
  size := rfl
  free _ _ := rfl

/-- Both programs compute the sum of the numbers up to `n`. -/
structure Computes (stackMemory n stackSize : Nat) : Prop where
  /-- The driver terminates, and has seen `n + 1` generators alive at once. -/
  heap : onHeap stackMemory n stackSize = .sum (triangle n) (n + 1)
  /-- There are never more, whatever it performs, -/
  most : ∀ p ∈ course stackMemory n stackSize, AliveAtMost (n + 1) p
  /-- and some step begins with so many. -/
  reached : ∃ p ∈ course stackMemory n stackSize, p.1.alive = n + 1
  stack : onStack stackMemory n stackSize = [.yielded (.int 0), .returned (.int (triangle n)),
    .failed ⟨.exhausted "triangular", 0, []⟩]

/-- Both programs fail for the size of the stack. -/
structure Refuses (stackMemory n stackSize : Nat) : Prop where
  heap : onHeap stackMemory n stackSize =
    .failed (.failed ⟨.fiberAllocation "triangular" stackSize, 0, []⟩)
  stack : onStack stackMemory n stackSize =
    List.replicate 3 (.failed ⟨.fiberAllocation "triangular" stackSize, 0, []⟩)

theorem computes_of_inRange {stackMemory : Nat} (hn : triangle n < 2 ^ 64)
    (hrange : stackSizeInRange stackSize = true) (hmemory : stackSize ≤ stackMemory) :
    Computes stackMemory n stackSize := by
  obtain ⟨w₁, w₂, r, h⟩ := (descending_start n stackMemory hmemory).exists_launches (Nat.zero_le n)
    hrange (2 * n + 2) (by omega)
  have hcreate := h.create.perform
  rw [Nat.sub_zero] at hcreate
  have hcourse : course stackMemory n stackSize =
      ({ stackMemory }, .create (nameAt 0) (triangular stackSize (.level n))) ::
        (w₁, .resume (nameAt 0) none) :: performances stackSize (2 * n + 2) w₂ 0 r := by
    simp only [course, hcreate, h.resume.perform]
  constructor
  case heap =>
    simp only [onHeap, hcreate, h.resume.perform, h.alive]
    exact h.sums.result
  case most =>
    rw [hcourse]
    simp only [List.forall_mem_cons]
    exact ⟨h.createAlive, h.resumeAlive, h.sums.alive⟩
  case reached =>
    rw [hcourse]
    obtain ⟨p, hp, hreached⟩ := h.reached
    exact ⟨p, .tail _ hp, hreached⟩
  case stack => exact onStack_eq hn hrange hmemory

theorem refuses_of_outOfRange {stackMemory : Nat} (hrange : stackSizeInRange stackSize = false) :
    Refuses stackMemory n stackSize where
  heap := by
    have hfree : ({ stackMemory } : World Code).handles.find? (nameAt 0) = none := rfl
    have hcreate := replies_create stackSize (.level n) hfree
    obtain ⟨h, hresume⟩ := replies_refused (w := making { stackMemory } (nameAt 0) stackSize (.level n))
      (g := 0) (c := .level n) find?_making_self Nat.one_pos hrange []
    have hput : (making { stackMemory } (nameAt 0) stackSize (.level n)).put 0
        (fresh stackSize (.level n)) [] = making { stackMemory } (nameAt 0) stackSize (.level n) :=
      put_of_eq generator_making_self
    rw [hput] at hresume
    simp only [onHeap, hcreate.perform, hresume.perform]
    rfl
  stack := onStack_of_outOfRange hrange

/-- Recursion on generators computes the recursion, where the stacks can be allocated that it asks for;
with another size of stack it fails. -/
theorem recursion_of_stackSize (stackMemory n stackSize : Nat) :
    (stackSizeInRange stackSize = true → stackSize ≤ stackMemory → triangle n < 2 ^ 64 →
      Computes stackMemory n stackSize) ∧
    (stackSizeInRange stackSize = false → Refuses stackMemory n stackSize) :=
  ⟨fun hrange hmemory hn => computes_of_inRange hn hrange hmemory, refuses_of_outOfRange⟩

/-- Both programs compute the sum of the numbers up to ten on the smallest stacks, and fail on
smaller ones. -/
theorem recursion_of_ten : Computes defaultStackMemory 10 minStackSize ∧
    Refuses defaultStackMemory 10 (minStackSize - 1) :=
  ⟨(recursion_of_stackSize defaultStackMemory 10 minStackSize).1 rfl (by decide) (by decide),
    (recursion_of_stackSize defaultStackMemory 10 (minStackSize - 1)).2 rfl⟩

end Coroutine.Recursion
