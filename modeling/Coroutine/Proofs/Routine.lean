import Coroutine.Proofs.Reachable
import Coroutine.Proofs.Shape

/-! A coroutine with three states, which is what a generator amounts to for its callers, and what it
means that calls on a generator come back as they would from that coroutine. -/

namespace Coroutine

variable {C : Type}

/-- A call on a generator. -/
inductive Call
  /-- The producer is to go on, with a value or without. -/
  | resume (sent : Option Value)
  /-- An exception is to be raised where the producer is suspended. -/
  | throw (e : Exception)

/-- The task that a call on `g` amounts to. -/
def Call.task (g : GeneratorId) : Call → Task C
  | resume sent => .resume g sent
  | throw e => .throw g e

/-- A coroutine: its code has not run, it is suspended at a yield point, or it is over. -/
inductive Routine (C : Type)
  | unused (c : C)
  | suspended (k : Except Exception (Option Value) → C)
  | finished

/-- What code does that runs: it suspends with a value, or it ends. -/
inductive Reaction (C : Type)
  | yields (v : Value) (k : Except Exception (Option Value) → C)
  | ends (r : Except Exception Value)

namespace Reaction

/-- What the caller gets. -/
def result : Reaction C → Except OpError (Progress Value Value)
  | yields v _ => .ok (.yielded v)
  | ends (.ok v) => .ok (.returned v)
  | ends (.error e) => .error (.raised e)

/-- Where the coroutine stands then. -/
def routine : Reaction C → Routine C
  | yields _ k => .suspended k
  | ends _ => .finished

end Reaction

/-- What a coroutine does with a call. -/
inductive Response (C : Type)
  /-- The caller gets its result at once. -/
  | answers (r : Except OpError (Progress Value Value)) (s : Routine C)
  /-- This code runs until it reacts. -/
  | runs (c : C)

/-- What a coroutine called `name` does with a call. -/
def Routine.call (name : String) : Routine C → Call → Response C
  | unused c, .resume none => .runs c
  | unused c, .resume (some _) => .answers (.error (.sentBeforeStart name)) (unused c)
  | unused _, .throw e => .answers (.error (.raised e)) finished
  | suspended k, .resume sent => .runs (k (.ok sent))
  | suspended k, .throw e => .runs (k (.error e))
  | finished, .resume _ => .answers (.error (.exhausted name)) finished
  | finished, .throw e => .answers (.error (.raised e)) finished

/-- The coroutine that a generator amounts to, unless its start failed, it panicked or control is
inside. -/
def Generator.routine? (x : Generator C) : Option (Routine C) :=
  match x.status, x.fiber with
  | .unused, _ => x.entry.map fun entry => .unused entry.code
  | .running, some ⟨_, .suspended k _ _⟩ => some (.suspended k)
  | .running, _ => none
  | .finished, _ => some .finished

namespace Generator

variable {x : Generator C}

theorem unused_of_routine? {c : C} (h : x.routine? = some (.unused c)) :
    x.status = .unused ∧ ∃ entry, x.entry = some entry ∧ entry.code = c := by
  unfold routine? at h
  split at h
  · next hs =>
    obtain ⟨entry, hentry, hc⟩ := Option.map_eq_some_iff.mp h
    cases hc
    exact ⟨hs, entry, hentry, rfl⟩
  all_goals cases h

theorem suspended_of_routine? {k : Except Exception (Option Value) → C}
    (h : x.routine? = some (.suspended k)) :
    x.status = .running ∧
      ∃ size scopes captures, x.fiber = some ⟨size, .suspended k scopes captures⟩ := by
  unfold routine? at h
  split at h
  · obtain ⟨entry, -, hc⟩ := Option.map_eq_some_iff.mp h
    cases hc
  · next hs hf =>
    cases h
    exact ⟨hs, _, _, _, hf⟩
  all_goals cases h

theorem finished_of_routine? (h : x.routine? = some .finished) : x.status = .finished := by
  unfold routine? at h
  split at h
  · obtain ⟨entry, -, hc⟩ := Option.map_eq_some_iff.mp h
    cases hc
  · cases h
  · cases h
  · assumption

end Generator

/-- Control is outside the producer of `g`, and `g` amounts to the coroutine `s`. -/
structure World.Stands (w : World C) (g : GeneratorId) (s : Routine C) : Prop where
  present : g < w.generators.size
  outside : (w.generator g).running = false
  routine : (w.generator g).routine? = some s

namespace Machine

/-- Sessions get from one state to another, and no operation is done on `g` meanwhile. -/
inductive Between (P : Program C) (g : GeneratorId) (m : Machine C) : Machine C → Prop
  | refl : Between P g m m
  | move {m' : Machine C} : Between P g m m' →
      (∀ t, m'.control = .task t → t.operates? ≠ some g) → Between P g m (m'.next P)
  | again {m' : Machine C} (s : Step C) :
      Between P g m m' → m'.Completed → Between P g m ⟨m'.world, .task (.step s), []⟩

theorem Reachable.between {P : Program C} {g : GeneratorId} {m m' : Machine C}
    (h : Reachable P m) (hm : Between P g m m') : Reachable P m' := by
  induction hm with
  | refl => exact h
  | move _ _ ih => exact ih.move
  | again s _ hcompleted ih => exact ih.again s hcompleted

/-- Moves lead from one state to another, and what was begun on top of `fs` does not come back
before. -/
inductive Within (P : Program C) (fs : List (Frame C)) : Machine C → Machine C → Prop
  | refl (m : Machine C) : Within P fs m m
  | move {m m' : Machine C} : fs <:+ m.frames → (∀ a, m.control = .answer a → m.frames ≠ fs) →
      Within P fs (m.next P) m' → Within P fs m m'

namespace Within

variable {P : Program C} {fs : List (Frame C)} {m m' : Machine C}

theorem leads (h : Within P fs m m') : Leads P m m' := by
  induction h with
  | refl m => exact .refl m
  | move _ _ _ ih => exact .move ih

theorem trans {m'' : Machine C} (h : Within P fs m m') (h' : Within P fs m' m'') :
    Within P fs m m'' := by
  induction h with
  | refl => exact h'
  | move hfs hback _ ih => exact .move hfs hback (ih h')

/-- What is begun on top of more frames comes back first. -/
theorem under {f : Frame C} (h : Within P (f :: fs) m m') : Within P fs m m' := by
  induction h with
  | refl m => exact .refl m
  | move hfs _ _ ih =>
    refine .move ((List.suffix_cons f fs).trans hfs) (fun a _ heq => ?_) ih
    have hlength := hfs.length_le
    rw [heq, List.length_cons] at hlength
    exact absurd hlength (Nat.not_succ_le_self _)

theorem of_suffix {fs' : List (Frame C)} (hfs : fs <:+ fs') (h : Within P fs' m m') :
    Within P fs m m' := by
  obtain ⟨above, rfl⟩ := hfs
  induction above with
  | nil => exact h
  | cons f above ih => exact ih h.under

theorem of_task {w : World C} {t : Task C} {fs' : List (Frame C)} {b : Machine C}
    (hfs : fs <:+ fs') (h : perform w fs' t = b) (hb : Within P fs b m') :
    Within P fs ⟨w, .task t, fs'⟩ m' := by
  subst h
  exact .move hfs nofun hb

theorem of_code {w : World C} {c : C} {r : Request C} {fs' : List (Frame C)} {b : Machine C}
    (hfs : fs <:+ fs') (hP : P.next c = r) (h : grant w fs' r = b) (hb : Within P fs b m') :
    Within P fs ⟨w, .code c, fs'⟩ m' := by
  subst hP h
  exact .move hfs nofun hb

/-- What has a frame on top of `fs` does not come back to `fs` with the next move. -/
theorem next_of_cons {f : Frame C} (hfs : f :: fs <:+ m.frames) : Within P fs m (m.next P) := by
  refine .move ((List.suffix_cons f fs).trans hfs) (fun _ _ heq => ?_) (.refl _)
  rw [heq] at hfs
  exact absurd hfs.length_le (Nat.not_succ_le_self _)

/-- What has come back does not go on. -/
theorem eq_answer {w : World C} {a : Answer} (h : Within P fs ⟨w, .answer a, fs⟩ m') :
    m' = ⟨w, .answer a, fs⟩ := by
  cases h with
  | refl => rfl
  | move _ hback _ => exact absurd rfl (hback a rfl)

/-- A call comes back once. -/
theorem unique {w w' : World C} {a a' : Answer} (h : Within P fs m ⟨w, .answer a, fs⟩)
    (h' : Within P fs m ⟨w', .answer a', fs⟩) : w = w' ∧ a = a' := by
  generalize hend : (⟨w, .answer a, fs⟩ : Machine C) = e at h
  induction h with
  | refl =>
    subst hend
    cases h'.eq_answer
    exact ⟨rfl, rfl⟩
  | move _ hback _ ih =>
    cases h' with
    | refl => exact absurd rfl (hback a' rfl)
    | move _ _ hrest => exact ih hrest hend

end Within

/-- The code of the producer of `g`, which was called on top of `fs`, has come to a reaction. -/
inductive Reacts (P : Program C) (g : GeneratorId) (fs : List (Frame C)) :
    Machine C → Reaction C → Prop
  | yields {w : World C} {c : C} {v : Value} {k : Except Exception (Option Value) → C}
      {scopes : List (Scope C)} {captures : List (HeldGuard C)} : P.next c = .yield v k →
      Reacts P g fs ⟨w, .code c, stackFiber scopes captures (.driving g :: fs)⟩ (.yields v k)
  /-- The entry procedure is over, and what was on its stack has been released. -/
  | ends {w : World C} {r : Except Exception Value} :
      Reacts P g fs ⟨w, .answer (.outcome r), .driving g :: fs⟩ (.ends r)

/-- What is released from `m` on when `g` ends is released without a panic. -/
structure Settles (P : Program C) (g : GeneratorId) (m : Machine C) : Prop where
  /-- An entry procedure that never ran is released, -/
  entry : ∀ w fs guards, Leads P m ⟨w, .task (.release guards), .emptying g :: fs⟩ →
    ∃ w', Within P (.emptying g :: fs) ⟨w, .task (.release guards), .emptying g :: fs⟩
      ⟨w', .answer .unit, .emptying g :: fs⟩
  /-- and the cleanup returns. -/
  cleanup : ∀ w fs, Leads P m ⟨w, .task (.releasePayload g), fs⟩ →
    ∃ w', Within P fs ⟨w, .task (.releasePayload g), fs⟩ ⟨w', .answer .unit, fs⟩

theorem Settles.leads {P : Program C} {g : GeneratorId} {m m' : Machine C} (h : Settles P g m)
    (hm : Leads P m m') : Settles P g m' where
  entry w fs guards hlead := h.entry w fs guards (hm.trans hlead)
  cleanup w fs hlead := h.cleanup w fs (hm.trans hlead)

/-- In the state `m` a stack can be set up for `g`, and no panic comes from the cleanup. -/
structure Callable (P : Program C) (g : GeneratorId) (m : Machine C) : Prop where
  inRange : stackSizeInRange (m.world.generator g).stackSize = true
  memory : (m.world.generator g).stackSize ≤ m.world.stackMemory
  settles : Settles P g m

/-- From `m` the call on `g` that was made on top of `fs` comes back, with `r` and with nothing
else. Control is outside the producer then, `g` amounts to the coroutine `s`, and sessions go on
from there as `goesOn` says. -/
def ComesBack (P : Program C) (g : GeneratorId) (fs : List (Frame C))
    (r : Except OpError (Progress Value Value)) (s : Routine C) (goesOn : Machine C → Prop)
    (m : Machine C) : Prop :=
  ∃ w, Within P fs m ⟨w, .answer (.progress r), fs⟩ ∧
    (∀ w' a, Within P fs m ⟨w', .answer a, fs⟩ → a = .progress r) ∧
    w.Stands g s ∧ goesOn ⟨w, .answer (.progress r), fs⟩

/-- The calls on `g` that are made one after another from `m` on, where it amounts to the coroutine
`s`, do what this coroutine does with them, if no other operation is done on `g`: either they come
back at once, or they run its code, and come back with the reaction that the code comes to, whatever
it does before. -/
def Lockstep (P : Program C) (g : GeneratorId) : List Call → Routine C → Machine C → Prop
  | [], _, _ => True
  | call :: calls, s, m => ∀ w fs, Between P g m ⟨w, .task (call.task g), fs⟩ →
    Callable P g ⟨w, .task (call.task g), fs⟩ →
    match s.call (w.generator g).name call with
    | .answers r s' => ComesBack P g fs r s' (Lockstep P g calls s') ⟨w, .task (call.task g), fs⟩
    | .runs c => ∃ w' scopes captures,
      Within P fs ⟨w, .task (call.task g), fs⟩
        ⟨w', .code c, stackFiber scopes captures (.driving g :: fs)⟩ ∧
      ∀ m' ρ, Within P fs ⟨w', .code c, stackFiber scopes captures (.driving g :: fs)⟩ m' →
        Reacts P g fs m' ρ →
        ComesBack P g fs ρ.result ρ.routine (Lockstep P g calls ρ.routine) m'

end Machine

end Coroutine
