import Coroutine.Proofs.Awaits

/-! Where handles are held: by names, by iterators, by the frames of the stack and on the stacks of
suspended fibers. Main statements: what each change of a world does to the number of handles of a
generator that are held in it. -/

namespace Coroutine

variable {C : Type}

namespace Table

variable {α : Type} {f : α → Nat}

/-- The sum of a number that is read from what each name names. -/
def total (f : α → Nat) (t : Table α) : Nat := (t.entries.map fun e => f e.2).sum

@[simp] theorem total_empty : (Table.empty : Table α).total f = 0 := rfl

/-- An inserted entry takes the place of the entry of its name. -/
theorem total_insert (t : Table α) (name : String) (a : α) :
    (t.insert name a).total f + ((t.find? name).map f).getD 0 = t.total f + f a := by
  obtain ⟨entries, sorted⟩ := t
  simp only [total, insert, find?]
  induction entries with
  | nil => simp [insertEntry]
  | cons head rest ih =>
    obtain ⟨x, b⟩ := head
    obtain ⟨hhead, hrest⟩ := List.pairwise_cons.mp sorted
    by_cases hname : name = x
    · simp [insertEntry, List.lookup, hname]
      omega
    have hx : (name == x) = false := by simpa using hname
    have hlookup : ((x, b) :: rest).lookup name = rest.lookup name := by simp [List.lookup, hx]
    rw [hlookup]
    by_cases hlt : name < x
    · -- the name comes before all others, so nothing in the rest has it
      have hnone : rest.lookup name = none := by
        refine List.lookup_eq_none_iff.mpr fun e he => ?_
        have hne : name ≠ e.1 := by
          rintro rfl
          exact String.lt_irrefl _ (String.lt_trans hlt (hhead _ he))
        simpa using hne
      simp [insertEntry, hname, hlt, hnone]
      omega
    · have hi := ih hrest
      simp only [insertEntry, hname, hlt, ↓reduceIte, List.map_cons, List.sum_cons]
      omega

/-- An erasure takes the entry of its name away. -/
theorem total_erase (t : Table α) (name : String) :
    (t.erase name).total f + ((t.find? name).map f).getD 0 = t.total f := by
  obtain ⟨entries, sorted⟩ := t
  simp only [total, erase, find?]
  induction entries with
  | nil => rfl
  | cons head rest ih =>
    obtain ⟨x, b⟩ := head
    obtain ⟨hhead, hrest⟩ := List.pairwise_cons.mp sorted
    have hi := ih hrest
    by_cases hname : name = x
    · subst hname
      -- the table is sorted, so nothing in the rest has the name
      have hkeep : rest.filter (fun e => e.1 ≠ name) = rest := by
        refine List.filter_eq_self.mpr fun e he => ?_
        have hne : e.1 ≠ name := fun h => String.lt_irrefl name (h ▸ hhead e he)
        simpa using hne
      rw [List.filter_cons_of_neg (by simp), hkeep]
      simp [List.lookup]
      omega
    · have hx : (name == x) = false := by simpa using hname
      have hlookup : ((x, b) :: rest).lookup name = rest.lookup name := by simp [List.lookup, hx]
      rw [hlookup, List.filter_cons_of_pos (by simpa using Ne.symm hname)]
      simp only [List.map_cons, List.sum_cons]
      omega

end Table

/-- What is taken from a table and what stays in it make up the table. -/
theorem total_takeNamed {α : Type} (f : α → Nat) (t : Table α) (names : List String) :
    ((Machine.takeNamed t names).1.map f).sum + (Machine.takeNamed t names).2.total f =
      t.total f := by
  induction names generalizing t with
  | nil => simp [Machine.takeNamed]
  | cons name rest ih =>
    cases hfind : t.find? name with
    | none => simpa [Machine.takeNamed, hfind] using ih t
    | some a =>
      have herase := Table.total_erase (f := f) t name
      have hrest := ih (t.erase name)
      simp only [hfind, Option.map_some, Option.getD_some] at herase
      simp only [Machine.takeNamed, hfind, List.map_cons, List.sum_cons]
      omega

/-- Whether a handle is one of `g`, as a number. -/
def handleTo (g h : GeneratorId) : Nat := if h = g then 1 else 0

/-- The handles of `g` among the source of an iterator. -/
def sourceHeld (g : GeneratorId) (source : Option GeneratorId) : Nat :=
  (source.map (handleTo g)).getD 0

/-- The handles of `g` that a scope holds itself. -/
def Scope.held (g : GeneratorId) : Scope C → Nat
  | iterator source => sourceHeld g source
  | _ => 0

/-- The handles of `g` that scopes hold. -/
def heldScopes (g : GeneratorId) (scopes : List (Scope C)) : Nat :=
  (scopes.map (Scope.held g)).sum

/-- The handles of `g` on the stack of a suspended fiber. -/
def FiberState.held (g : GeneratorId) : FiberState C → Nat
  | suspended _ scopes _ => heldScopes g scopes
  | _ => 0

/-- The handles of `g` on the stack of a generator's fiber while it is suspended. -/
def Generator.held (g : GeneratorId) (x : Generator C) : Nat :=
  (x.fiber.map fun f => f.state.held g).getD 0

/-- The handles of `g` that a frame holds. -/
def Frame.held (g : GeneratorId) : Frame C → Nat
  | scope s | entering s _ => s.held g
  | holding h | viewing h _ | pullingNamed _ h _ _ => handleTo g h
  | owningHandles hs => (hs.map (handleTo g)).sum
  | owningFibers _ fibers => (fibers.map fun f => f.state.held g).sum
  | _ => 0

/-- The handles of `g` that the frames of a stack hold. -/
def heldFrames (g : GeneratorId) (fs : List (Frame C)) : Nat := (fs.map (Frame.held g)).sum

/-- The handles of `g` that a task has in hand. -/
def Task.held (g : GeneratorId) : Task C → Nat
  | dropHandle h => handleTo g h
  | releaseScope s => s.held g
  | discard _ f => f.state.held g
  | _ => 0

/-- The handles of `g` that the control has in hand. -/
def Control.held (g : GeneratorId) : Control C → Nat
  | task t => t.held g
  | _ => 0

/-- The handles of `g` that are held in a world: by names, by iterators and on the stacks of
suspended fibers. -/
def World.held (g : GeneratorId) (w : World C) : Nat :=
  w.handles.total (handleTo g) + w.iterators.total (sourceHeld g) +
    w.fibers.total (fun f => f.state.held g) + (w.generators.toList.map (Generator.held g)).sum

/-- The handles of `g` that are held anywhere. -/
def Machine.held (g : GeneratorId) (m : Machine C) : Nat :=
  m.world.held g + m.control.held g + heldFrames g m.frames

variable {g : GeneratorId}

@[simp] theorem handleTo_self : handleTo g g = 1 := by simp [handleTo]

@[simp] theorem heldScopes_nil : heldScopes g ([] : List (Scope C)) = 0 := rfl

@[simp] theorem heldScopes_cons (s : Scope C) (scopes : List (Scope C)) :
    heldScopes g (s :: scopes) = s.held g + heldScopes g scopes := rfl

@[simp] theorem heldFrames_nil : heldFrames g ([] : List (Frame C)) = 0 := rfl

@[simp] theorem heldFrames_cons (f : Frame C) (fs : List (Frame C)) :
    heldFrames g (f :: fs) = f.held g + heldFrames g fs := rfl

@[simp] theorem held_unwinding (u : Unwinding) : (Frame.unwinding u : Frame C).held g = 0 := rfl

@[simp] theorem heldFrames_stackFiber (scopes : List (Scope C)) (captures : List (HeldGuard C))
    (rest : List (Frame C)) :
    heldFrames g (stackFiber scopes captures rest) = heldScopes g scopes + heldFrames g rest := by
  induction scopes with
  | nil => simp [Frame.held]
  | cons s scopes ih => simp [ih, Frame.held, Nat.add_assoc]

/-- Sums over a list of which one entry is changed. -/
theorem sum_map_modify {α : Type} (f : α → Nat) (φ : α → α) (l : List α) (i : Nat) :
    ((l.modify i φ).map f).sum + (l[i]?.map f).getD 0 =
      (l.map f).sum + (l[i]?.map (f ∘ φ)).getD 0 := by
  induction l generalizing i with
  | nil => simp
  | cons a l ih =>
    cases i with
    | zero => simp; omega
    | succ i =>
      have := ih i
      simp only [List.modify_succ_cons, List.map_cons, List.sum_cons, List.getElem?_cons_succ]
      omega

namespace World

section

attribute [local simp] generator

theorem generator_eq_getD (w : World C) (h : GeneratorId) :
    w.generator h = w.generators.toList[h]?.getD .vacant := by
  simp

end

/-- A change of a generator changes what is held on its fiber's stack only. -/
theorem held_modify_le (w : World C) (h : GeneratorId) (φ : Generator C → Generator C) :
    (w.modify h φ).held g + (w.generator h).held g ≤ w.held g + (φ (w.generator h)).held g := by
  have hsum := sum_map_modify (Generator.held g) φ w.generators.toList h
  rw [generator_eq_getD]
  cases hx : w.generators.toList[h]? with
  | none =>
    simp only [hx, Option.map_none, Option.getD_none] at hsum
    simp only [held, modify, Array.toList_modify, Option.getD_none]
    have hvacant : (Generator.vacant : Generator C).held g = 0 := rfl
    omega
  | some x =>
    simp only [hx, Option.map_some, Option.getD_some, Function.comp] at hsum
    simp only [held, modify, Array.toList_modify, Option.getD_some]
    omega

/-- A change of a generator that leaves its fiber as it is. -/
theorem held_modify_of_fiber {w : World C} {h : GeneratorId} {φ : Generator C → Generator C}
    (hφ : (φ (w.generator h)).fiber = (w.generator h).fiber) :
    (w.modify h φ).held g ≤ w.held g := by
  have hle := w.held_modify_le (g := g) h φ
  have heq : (φ (w.generator h)).held g = (w.generator h).held g := by simp [Generator.held, hφ]
  omega

@[simp] theorem held_note (w : World C) (e : Event) : (w.note e).held g = w.held g := rfl

@[simp] theorem held_log (w : World C) (r : Record) : (w.log r).held g = w.held g := rfl

/-- A named handle takes the place of the handle that had its name. -/
theorem held_insert_handle (w : World C) (name : String) (h : GeneratorId) :
    ({ w with handles := w.handles.insert name h } : World C).held g +
      sourceHeld g (w.handles.find? name) = w.held g + handleTo g h := by
  have := Table.total_insert (f := handleTo g) w.handles name h
  simp only [held, sourceHeld]
  omega

theorem held_erase_handle (w : World C) (name : String) :
    ({ w with handles := w.handles.erase name } : World C).held g +
      sourceHeld g (w.handles.find? name) = w.held g := by
  have := Table.total_erase (f := handleTo g) w.handles name
  simp only [held, sourceHeld]
  omega

theorem held_insert_iterator (w : World C) (name : String) (source : Option GeneratorId) :
    ({ w with iterators := w.iterators.insert name source } : World C).held g +
      ((w.iterators.find? name).map (sourceHeld g)).getD 0 = w.held g + sourceHeld g source := by
  have := Table.total_insert (f := sourceHeld g) w.iterators name source
  simp only [held]
  omega

theorem held_erase_iterator (w : World C) (name : String) :
    ({ w with iterators := w.iterators.erase name } : World C).held g +
      ((w.iterators.find? name).map (sourceHeld g)).getD 0 = w.held g := by
  have := Table.total_erase (f := sourceHeld g) w.iterators name
  simp only [held]
  omega

theorem held_insert_fiber (w : World C) (name : String) (f : Fiber C) :
    ({ w with fibers := w.fibers.insert name f } : World C).held g +
      ((w.fibers.find? name).map fun f => f.state.held g).getD 0 = w.held g + f.state.held g := by
  have := Table.total_insert (f := fun f => f.state.held g) w.fibers name f
  simp only [held]
  omega

theorem held_erase_fiber (w : World C) (name : String) :
    ({ w with fibers := w.fibers.erase name } : World C).held g +
      ((w.fibers.find? name).map fun f => f.state.held g).getD 0 = w.held g := by
  have := Table.total_erase (f := fun f => f.state.held g) w.fibers name
  simp only [held]
  omega

end World

theorem held_or_dropped_cons {f : Frame C} {fs : List (Frame C)}
    (h : 0 < heldFrames g fs ∨ .dropped g ∈ marks fs) :
    0 < heldFrames g (f :: fs) ∨ .dropped g ∈ marks (f :: fs) := by
  rcases h with h | h
  · exact .inl (Nat.lt_of_lt_of_le h (Nat.le_add_left ..))
  · exact .inr (by simp [h])

namespace Awaits

attribute [local simp] sourceHeld Scope.held FiberState.held Generator.held Frame.held Task.held
  Control.held World.held Machine.held

variable {F : Fates} {κ : Awaited} {fs : List (Frame C)}

/-- The frames hold a handle of the generator of an awaited operation, or drop its last one. -/
theorem held_of_operand (h : Awaits F κ fs) (hg : κ.operand? = some g) :
    0 < heldFrames g fs ∨ .dropped g ∈ marks fs := by
  induction h with
  | pulling | pullingNamed =>
    obtain rfl := Option.some.inj hg
    exact .inl (by simp)
  | viewing hκ | reporting hκ =>
    rcases hκ with rfl | rfl
    all_goals
      obtain rfl := Option.some.inj hg
      exact .inl (by simp)
  | closing _ _ _ ih => simpa using ih hg
  | dropping =>
    obtain rfl := Option.some.inj hg
    exact .inr (by simp)
  | _ => simp [Awaited.operand?] at hg

/-- The frames hold a handle of a producer that control is inside, or drop its last one. -/
theorem held_of_inside (h : Awaits F κ fs) (hg : .inside g ∈ marks fs) :
    0 < heldFrames g fs ∨ .dropped g ∈ marks fs := by
  induction h with
  | @driving _ k rest h hκ _ ih =>
    refine held_or_dropped_cons ?_
    have hg : g = k ∨ .inside g ∈ marks rest := by simpa using hg
    rcases hg with rfl | hg
    · exact h.held_of_operand (by rcases hκ with rfl | rfl <;> rfl)
    · exact ih hg
  | nothing => simp at hg
  | reporting _ _ ih => exact held_or_dropped_cons (held_or_dropped_cons (ih (by simpa using hg)))
  | _ => exact held_or_dropped_cons (by simp_all)

end Awaits

end Coroutine
