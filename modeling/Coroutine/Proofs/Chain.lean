import Coroutine.Machine.Run
import Mathlib

/-! The chain of switches: the generators whose stacks control is inside, innermost first, and the
frames of a stack that say something about a generator. -/

namespace Coroutine

variable {C : Type}

/-- What a frame says about a generator. -/
inductive Mark
  /-- Control is inside the producer. -/
  | inside (g : GeneratorId)
  /-- The stack of the producer is unwound by force. -/
  | unwound (g : GeneratorId)
  /-- The entry procedure is being released. -/
  | emptied (g : GeneratorId)
  /-- The last handle is being dropped. -/
  | dropped (g : GeneratorId)
  deriving DecidableEq

namespace Frame

/-- The generator whose stack the frames above belong to. -/
@[simp] def entered? : Frame C → Option GeneratorId
  | driving g | destroying g => some g
  | _ => none

/-- What the frame says about a generator, if it says something. -/
@[simp] def mark? : Frame C → Option Mark
  | driving g => some (.inside g)
  | destroying g => some (.unwound g)
  | emptying g => some (.emptied g)
  | dropping g => some (.dropped g)
  | _ => none

end Frame

/-- The generators whose stacks are on the chain of switches, the innermost first. -/
def chain (fs : List (Frame C)) : List GeneratorId := fs.filterMap Frame.entered?

/-- What the frames of a stack say about generators. -/
def marks (fs : List (Frame C)) : List Mark := fs.filterMap Frame.mark?

@[simp] theorem chain_nil : chain ([] : List (Frame C)) = [] := rfl

@[simp] theorem marks_nil : marks ([] : List (Frame C)) = [] := rfl

@[simp] theorem chain_cons (f : Frame C) (fs : List (Frame C)) :
    chain (f :: fs) = f.entered?.toList ++ chain fs := by
  cases f <;> rfl

@[simp] theorem marks_cons (f : Frame C) (fs : List (Frame C)) :
    marks (f :: fs) = f.mark?.toList ++ marks fs := by
  cases f <;> rfl

@[simp] theorem stackFiber_nil (captures : List (HeldGuard C)) (rest : List (Frame C)) :
    stackFiber [] captures rest = .closure captures :: rest := rfl

@[simp] theorem stackFiber_cons (s : Scope C) (scopes : List (Scope C))
    (captures : List (HeldGuard C)) (rest : List (Frame C)) :
    stackFiber (s :: scopes) captures rest = .scope s :: stackFiber scopes captures rest := rfl

/-- A generator is on the chain exactly if control is inside its producer or its stack is
unwound. -/
theorem mem_chain_iff {fs : List (Frame C)} {g : GeneratorId} :
    g ∈ chain fs ↔ .inside g ∈ marks fs ∨ .unwound g ∈ marks fs := by
  induction fs with
  | nil => simp
  | cons f fs ih =>
    have hf : g ∈ f.entered?.toList ↔
        .inside g ∈ f.mark?.toList ∨ .unwound g ∈ f.mark?.toList := by
      cases f <;> simp
    rw [chain_cons, marks_cons, List.mem_append, List.mem_append, List.mem_append, hf, ih]
    tauto

@[simp] theorem marks_stackFiber (scopes : List (Scope C)) (captures : List (HeldGuard C))
    (rest : List (Frame C)) : marks (stackFiber scopes captures rest) = marks rest := by
  induction scopes with
  | nil => simp
  | cons s scopes ih => simpa using ih

@[simp] theorem chain_stackFiber (scopes : List (Scope C)) (captures : List (HeldGuard C))
    (rest : List (Frame C)) : chain (stackFiber scopes captures rest) = chain rest := by
  induction scopes with
  | nil => simp
  | cons s scopes ih => simpa using ih

theorem suffix_stackFiber (scopes : List (Scope C)) (captures : List (HeldGuard C))
    (rest : List (Frame C)) : rest <:+ stackFiber scopes captures rest :=
  ⟨scopes.map .scope ++ [.closure captures], by simp [stackFiber]⟩

theorem suffix_under_stackFiber (scopes : List (Scope C)) (captures : List (HeldGuard C))
    (f : Frame C) (rest : List (Frame C)) : rest <:+ stackFiber scopes captures (f :: rest) :=
  (List.suffix_cons f rest).trans (suffix_stackFiber ..)

theorem chain_subset_of_suffix {fs frames : List (Frame C)} {g : GeneratorId}
    (h : fs <:+ frames) (hg : g ∈ chain fs) : g ∈ chain frames := by
  obtain ⟨above, rfl⟩ := h
  rw [chain, List.filterMap_append]
  exact List.mem_append_right _ hg

theorem marks_subset_of_suffix {fs frames : List (Frame C)} {μ : Mark}
    (h : fs <:+ frames) (hμ : μ ∈ marks fs) : μ ∈ marks frames := by
  obtain ⟨above, rfl⟩ := h
  rw [marks, List.filterMap_append]
  exact List.mem_append_right _ hμ

/-- A stack is split into a fiber's part and the frames below exactly if it is the one on top of
the other. -/
theorem splitFiber_eq_some_iff {fs : List (Frame C)} {scopes : List (Scope C)}
    {captures : List (HeldGuard C)} {rest : List (Frame C)} :
    splitFiber fs = some (scopes, captures, rest) ↔ fs = stackFiber scopes captures rest := by
  induction fs generalizing scopes with
  | nil => simp [splitFiber, stackFiber]
  | cons f fs ih =>
    cases f
    case scope s =>
      cases scopes with
      | nil => simp [splitFiber, stackFiber]
      | cons s' scopes =>
        rw [stackFiber_cons, List.cons.injEq, Frame.scope.injEq, ← ih]
        cases hsplit : splitFiber fs with
        | none => simp [splitFiber, hsplit]
        | some r => simp [splitFiber, hsplit, Prod.ext_iff, and_assoc]
    case closure captures' =>
      cases scopes <;> simp [splitFiber, stackFiber]
    all_goals cases scopes <;> simp [splitFiber, stackFiber]

/-- The running code is a producer's exactly if the switch into that producer is right below its
part of the stack. -/
theorem producer?_eq_some_iff {fs : List (Frame C)} {g : GeneratorId} :
    producer? fs = some g ↔
      ∃ scopes captures rest, fs = stackFiber scopes captures (.driving g :: rest) := by
  constructor
  · intro h
    unfold producer? at h
    split at h
    · next scopes captures g' rest hsplit =>
      obtain rfl : g' = g := by simpa using h
      exact ⟨scopes, captures, rest, splitFiber_eq_some_iff.mp hsplit⟩
    · simp at h
  · rintro ⟨scopes, captures, rest, rfl⟩
    simp [producer?, splitFiber_eq_some_iff.mpr rfl]

end Coroutine
