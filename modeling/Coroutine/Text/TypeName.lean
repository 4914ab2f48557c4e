/-! The short name of a type: its name without the module path in front of it. The arguments of a
generic type keep their paths. -/

namespace Coroutine.Text

/-- The length of the module path in front of a name: all up to the last double colon. -/
def pathLength : List Char → Nat
  | [] => 0
  | c :: cs =>
    match pathLength cs with
    | 0 => if c = ':' ∧ cs.head? = some ':' then 2 else 0
    | n + 1 => n + 2

/-- The path is looked for before the first angle bracket only, where the arguments begin. -/
def shortName (cs : List Char) : List Char := cs.drop (pathLength (cs.takeWhile (· ≠ '<')))

/-- The short name of the type with a full name. -/
def shortTypeName (full : String) : String := String.ofList (shortName full.toList)

theorem pathLength_eq_zero {cs : List Char} (h : ':' ∉ cs) : pathLength cs = 0 := by
  induction cs with
  | nil => rfl
  | cons c cs ih =>
    rw [List.mem_cons, not_or] at h
    simp [pathLength, ih h.2, Ne.symm h.1]

theorem pathLength_append {path name : List Char} (h : ':' ∉ name) :
    pathLength (path ++ ':' :: ':' :: name) = path.length + 2 := by
  induction path with
  | nil =>
    have hhead : name.head? ≠ some ':' := fun hhead => h (List.mem_of_mem_head? hhead)
    simp [pathLength, pathLength_eq_zero h, hhead]
  | cons c cs ih => simp [pathLength, ih]

/-- The short name of a type is the name that it has in its module, followed by its arguments. -/
theorem shortName_append {path name arguments : List Char} (hpath : '<' ∉ path) (hname : '<' ∉ name)
    (hcolon : ':' ∉ name) (harguments : ∀ c ∈ arguments.head?, c = '<') :
    shortName (path ++ ':' :: ':' :: name ++ arguments) = name ++ arguments := by
  have hbefore : ∀ c ∈ path ++ ':' :: ':' :: name, decide (c ≠ '<') = true := by
    intro c hc
    rw [decide_eq_true_eq]
    rintro rfl
    simp_all
  have hafter : arguments.takeWhile (· ≠ '<') = [] := by
    cases arguments with
    | nil => rfl
    | cons c cs => simp [harguments c rfl]
  have hbase : (path ++ ':' :: ':' :: name ++ arguments).takeWhile (· ≠ '<') =
      path ++ ':' :: ':' :: name := by
    rw [List.takeWhile_append_of_pos hbefore, hafter, List.append_nil]
  rw [shortName, hbase, pathLength_append hcolon]
  simp [List.drop_append]

example : shortTypeName "alloc::boxed::Box<core::fmt::Error>" = "Box<core::fmt::Error>" := by decide

end Coroutine.Text
