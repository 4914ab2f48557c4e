import Coroutine.Proofs.Booking

/-! Where a guard is, counted over the whole machine: not held yet, with an entry procedure, on a
stack, among those that are about to be released, or released. Main statement: every run keeps this
count at one or below, so no guard is released twice, nor while it is still anywhere else. What a
function takes out of the world it puts into a task or a frame, so the count is one of world, control
and frames together, and cannot be read off the edits of the world alone. -/

namespace Coroutine

variable {C : Type}

/-- Whether the event is the release of the guard with serial number `s`. -/
def Event.releases (s : Nat) : Event → Bool
  | released serial _ => serial == s
  | _ => false

/-- How often the guard with serial number `s` has been released. -/
def World.releases (s : Nat) (w : World C) : Nat := w.history.countP (Event.releases s)

/-- How often the guard with serial number `s` is among these. -/
def copiesOf (s : Nat) (guards : List (HeldGuard C)) : Nat := guards.countP (·.serial == s)

def Scope.copies (s : Nat) : Scope C → Nat
  | guard held => copiesOf s [held]
  | _ => 0

def copiesScopes (s : Nat) (scopes : List (Scope C)) : Nat := (scopes.map (Scope.copies s)).sum

def FiberState.copies (s : Nat) : FiberState C → Nat
  | fresh entry => copiesOf s entry.captures
  | suspended _ scopes captures => copiesScopes s scopes + copiesOf s captures
  | _ => 0

def Generator.copies (s : Nat) (x : Generator C) : Nat :=
  (x.entry.map fun entry => copiesOf s entry.captures).getD 0 +
    (x.fiber.map fun f => f.state.copies s).getD 0

def Frame.copies (s : Nat) : Frame C → Nat
  | scope sc | entering sc _ => sc.copies s
  | closure captures => copiesOf s captures
  | onRelease _ _ rest => copiesOf s rest
  | owningFibers _ fibers => (fibers.map fun f => f.state.copies s).sum
  | _ => 0

def copiesFrames (s : Nat) (fs : List (Frame C)) : Nat := (fs.map (Frame.copies s)).sum

def Task.copies (s : Nat) : Task C → Nat
  | release guards => copiesOf s guards
  | releaseScope sc => sc.copies s
  | discard _ f => f.state.copies s
  | _ => 0

def Control.copies (s : Nat) : Control C → Nat
  | task t => t.copies s
  | _ => 0

/-- Whether `s` is one of the serial numbers that are still to be given, as a number. -/
def unspent (n s : Nat) : Nat := if n ≤ s then 1 else 0

/-- How often the guard with serial number `s` is in a world: it is one of those that are still to
be held, or it is with a generator or a raw fiber, or it has been released. -/
def World.copies (s : Nat) (w : World C) : Nat :=
  unspent w.guards s + w.fibers.total (fun f => f.state.copies s) +
    (w.generators.toList.map (Generator.copies s)).sum + w.releases s

/-- How often the guard with serial number `s` is anywhere. -/
def Machine.copies (s : Nat) (m : Machine C) : Nat :=
  m.world.copies s + m.control.copies s + copiesFrames s m.frames

variable {s : Nat}

@[simp] theorem copiesOf_nil : copiesOf s ([] : List (HeldGuard C)) = 0 := rfl

@[simp] theorem copiesScopes_nil : copiesScopes s ([] : List (Scope C)) = 0 := rfl

@[simp] theorem copiesScopes_cons (sc : Scope C) (scopes : List (Scope C)) :
    copiesScopes s (sc :: scopes) = sc.copies s + copiesScopes s scopes := rfl

@[simp] theorem copiesFrames_nil : copiesFrames s ([] : List (Frame C)) = 0 := rfl

@[simp] theorem copiesFrames_cons (f : Frame C) (fs : List (Frame C)) :
    copiesFrames s (f :: fs) = f.copies s + copiesFrames s fs := rfl

@[simp] theorem copiesFrames_append (fs fs' : List (Frame C)) :
    copiesFrames s (fs ++ fs') = copiesFrames s fs + copiesFrames s fs' := by
  simp [copiesFrames]

@[simp] theorem copiesFrames_stackFiber (scopes : List (Scope C)) (captures : List (HeldGuard C))
    (rest : List (Frame C)) : copiesFrames s (stackFiber scopes captures rest) =
      copiesScopes s scopes + copiesOf s captures + copiesFrames s rest := by
  induction scopes with
  | nil => simp [Frame.copies]
  | cons sc scopes ih => simp [ih, Frame.copies, Nat.add_assoc]

theorem copiesOf_cons (held : HeldGuard C) (guards : List (HeldGuard C)) :
    copiesOf s (held :: guards) = copiesOf s [held] + copiesOf s guards := by
  simp [copiesOf, List.countP_cons, Nat.add_comm]

theorem copiesOf_pos {held : HeldGuard C} {guards : List (HeldGuard C)} (h : held ∈ guards) :
    0 < copiesOf held.serial guards :=
  List.countP_pos_iff.mpr ⟨held, h, beq_self_eq_true _⟩

namespace World

variable {w w' : World C} {g : GeneratorId}

/-- A change of a generator changes what it holds only. -/
theorem copies_modify_le (w : World C) (g : GeneratorId) (φ : Generator C → Generator C) :
    (w.modify g φ).copies s + (w.generator g).copies s ≤
      w.copies s + (φ (w.generator g)).copies s := by
  have hsum := sum_map_modify (Generator.copies s) φ w.generators.toList g
  rw [generator_eq_getD]
  cases hx : w.generators.toList[g]? with
  | none =>
    simp only [hx, Option.map_none, Option.getD_none] at hsum
    simp only [copies, modify, Array.toList_modify, Option.getD_none, releases]
    have hvacant : (Generator.vacant : Generator C).copies s = 0 := rfl
    omega
  | some x =>
    simp only [hx, Option.map_some, Option.getD_some, Function.comp] at hsum
    simp only [copies, modify, Array.toList_modify, Option.getD_some, releases]
    omega

theorem copies_modify_add {φ : Generator C → Generator C} {n : Nat}
    (h : (φ (w.generator g)).copies s ≤ (w.generator g).copies s + n) :
    (w.modify g φ).copies s ≤ w.copies s + n := by
  have hle := w.copies_modify_le (s := s) g φ
  omega

theorem copies_modify_sub {φ : Generator C → Generator C} {n : Nat}
    (h : (φ (w.generator g)).copies s + n ≤ (w.generator g).copies s) :
    (w.modify g φ).copies s + n ≤ w.copies s := by
  have hle := w.copies_modify_le (s := s) g φ
  omega

/-- A change of a generator that leaves its entry procedure and its fiber as they are. -/
@[simp] theorem copies_modify_of_eq {φ : Generator C → Generator C}
    (hentry : ∀ x, (φ x).entry = x.entry) (hfiber : ∀ x, (φ x).fiber = x.fiber) :
    (w.modify g φ).copies s = w.copies s := by
  have hmap : (w.modify g φ).generators.toList.map (Generator.copies s) =
      w.generators.toList.map (Generator.copies s) := by
    simp only [modify, Array.toList_modify]
    refine List.ext_getElem (by simp) fun i hi hi' => ?_
    simp only [List.getElem_map, List.getElem_modify]
    split
    · simp [Generator.copies, hentry, hfiber]
    · rfl
  simp only [copies, hmap]
  rfl

@[simp] theorem copies_log (w : World C) (r : Record) : (w.log r).copies s = w.copies s := by
  simp [copies, log, note, releases, Event.releases]

theorem copies_note {e : Event} (he : e.releases s = false) :
    (w.note e).copies s = w.copies s := by
  simp [copies, note, releases, he]

theorem copies_released (w : World C) (held : HeldGuard C) :
    (w.note (.released held.serial held.guard.name)).copies s =
      w.copies s + copiesOf s [held] := by
  by_cases h : held.serial == s
  · simp [copies, note, releases, copiesOf, Event.releases, h]
    omega
  · simp [copies, note, releases, copiesOf, Event.releases, h]

@[simp] theorem copies_retain : (w.retain g).copies s = w.copies s :=
  copies_modify_of_eq (fun _ => rfl) fun _ => rfl

theorem copies_apply {op : Operation} {a : Action} (h : w.apply g op = .ok (w', a)) :
    w'.copies s = w.copies s := by
  simp only [apply] at h
  split at h
  · cases h
  · cases h
    rw [copies_log]
    split <;> simp

theorem copies_insert_fiber (w : World C) (name : String) (f : Fiber C) :
    ({ w with fibers := w.fibers.insert name f } : World C).copies s +
      ((w.fibers.find? name).map fun f => f.state.copies s).getD 0 =
        w.copies s + f.state.copies s := by
  have := Table.total_insert (f := fun f => f.state.copies s) w.fibers name f
  simp only [copies, releases]
  omega

theorem copies_erase_fiber (w : World C) (name : String) :
    ({ w with fibers := w.fibers.erase name } : World C).copies s +
      ((w.fibers.find? name).map fun f => f.state.copies s).getD 0 = w.copies s := by
  have := Table.total_erase (f := fun f => f.state.copies s) w.fibers name
  simp only [copies, releases]
  omega

/-- Guards that are held from now on are no more among those that are still to be held. -/
theorem copies_holdGuards (w : World C) (guards : List (Guard C)) :
    (w.holdGuards guards).2.copies s + copiesOf s (w.holdGuards guards).1 = w.copies s := by
  induction guards generalizing w with
  | nil => rfl
  | cons guard rest ih =>
    have hrest := ih { w with guards := w.guards + 1 }
    have hfirst : ({ w with guards := w.guards + 1 } : World C).copies s +
        copiesOf s [⟨w.guards, guard⟩] = w.copies s := by
      simp only [copies, releases, copiesOf, unspent, List.countP_singleton, beq_iff_eq]
      split <;> split <;> split <;> omega
    simp only [holdGuards]
    rw [copiesOf_cons]
    omega

theorem copies_addGenerator (w : World C) (d : Definition C) :
    (w.addGenerator d).2.copies s = w.copies s := by
  have hhold := w.copies_holdGuards (s := s) d.captures
  have hnew (captures : List (HeldGuard C)) :
      (Generator.ofDefinition d captures).copies s = copiesOf s captures := rfl
  rw [← hhold]
  simp only [addGenerator, copies, Array.toList_push, List.map_append, List.map_cons, List.map_nil,
    List.sum_append, List.sum_cons, List.sum_nil, hnew, releases]
  omega

@[simp] theorem copies_ledger (w : World C) (l : Ledger) :
    ({ w with ledger := l } : World C).copies s = w.copies s := rfl

@[simp] theorem copies_handles (w : World C) (t : Table GeneratorId) :
    ({ w with handles := t } : World C).copies s = w.copies s := rfl

@[simp] theorem copies_iterators (w : World C) (t : Table (Option GeneratorId)) :
    ({ w with iterators := t } : World C).copies s = w.copies s := rfl

@[simp] theorem copies_report (w : World C) (e : OpError) : (w.report e).2.copies s = w.copies s := rfl

@[simp] theorem copies_make (w : World C) (e : ExceptionSpec) : (w.make e).2.copies s = w.copies s := rfl

end World

namespace Machine

variable {w : World C} {fs : List (Frame C)} {g : GeneratorId}

@[simp] theorem copies_mk (w : World C) (c : Control C) (fs : List (Frame C)) :
    (Machine.mk w c fs).copies s = w.copies s + c.copies s + copiesFrames s fs := rfl

attribute [local simp] answer task panic fault progress closed reply code unexpected Control.copies
  Task.copies Frame.copies Scope.copies FiberState.copies

theorem copies_resume (sent : Option Value) :
    (resume w fs g sent).copies s = w.copies s + copiesFrames s fs := by
  simp only [resume]
  split
  · simp
  split
  · simp
  split
  · simp
  · next happly => simp [World.copies_apply happly]
  · next happly =>
    split
    · simp [World.copies_apply happly]
    split <;> simp [World.copies_apply happly]
  · next happly => simp [World.copies_apply happly]
  · next happly => simp [World.copies_apply happly]

theorem copies_start : (start w fs g).copies s ≤ w.copies s + copiesFrames s fs := by
  simp only [start]
  split
  · simp
  split
  · simp
  next entry hentry =>
  have hcut : (w.modify g fun x => { x with entry := none }).copies s +
      copiesOf s entry.captures ≤ w.copies s :=
    World.copies_modify_sub (by simp [Generator.copies, hentry, Nat.add_comm])
  split
  · simp
    omega
  · generalize (w.modify g fun x => { x with entry := none }) = cut at hcut ⊢
    refine Nat.add_le_add_right (Nat.le_trans ?_ hcut) _
    have hput (w' : World C) : (w'.modify g fun x => { x with
        fiber := some ⟨x.stackSize, .fresh entry⟩, status := .running }).copies s ≤
          w'.copies s + copiesOf s entry.captures :=
      World.copies_modify_add (by simp [Generator.copies])
    refine Nat.le_trans (hput _) ?_
    simp

theorem copies_throwInto (e : Exception) :
    (throwInto w fs g e).copies s = w.copies s + copiesFrames s fs := by
  simp only [throwInto]
  split
  · simp
  split
  · simp
  · next happly => simp [World.copies_apply happly]
  · next happly => split <;> simp [World.copies_apply happly]
  · next happly => simp [World.copies_apply happly]

theorem copies_close : (close w fs g).copies s = w.copies s + copiesFrames s fs := by
  simp only [close]
  split
  · simp
  split
  · simp
  · next happly => simp [World.copies_apply happly]
  · next happly => simp [World.copies_apply happly]
  · next happly => split <;> simp [World.copies_apply happly]
  · next happly => simp [World.copies_apply happly]

/-- The guards of a fiber go on the stack when control is switched into it. -/
theorem copies_drive : (drive w fs g).copies s ≤ w.copies s + copiesFrames s fs := by
  simp only [drive]
  split
  · simp
  next fiber hfiber =>
  have henter (held : Bool) : ((w.log (.switchesIn g (w.generator g).name)).modify g fun x =>
      { x with running := true, payloadHeld := held
               fiber := some { fiber with state := .active } }).copies s +
        fiber.state.copies s ≤ w.copies s := by
    rw [← w.copies_log (.switchesIn g (w.generator g).name)]
    exact World.copies_modify_sub (by simp [Generator.copies, hfiber])
  split
  · simp
  · simp
  · next hstate =>
    rw [hstate] at henter
    split
    · have := henter (w.generator g).payloadHeld
      simp at this ⊢
      omega
    · have := henter true
      simp at this ⊢
      omega
  · next hstate =>
    rw [hstate] at henter
    have := henter (w.generator g).payloadHeld
    simp at this ⊢
    omega

theorem copies_wake (k : Except Exception (Option Value) → C) :
    (wake w fs g k).copies s = w.copies s + copiesFrames s fs := by
  simp only [wake]
  split <;> simp

theorem copies_suspended : (suspended w fs g).copies s = w.copies s + copiesFrames s fs := by
  simp only [suspended]
  split
  · simp
  · next happly => split <;> simp [World.copies_apply happly]

theorem copies_terminated : (terminated w fs g).copies s = w.copies s + copiesFrames s fs := by
  simp only [terminated]
  split
  · simp
  · next happly => simp [World.copies_apply happly]

theorem copies_abandon : (abandon w fs g).copies s = w.copies s + copiesFrames s fs := by
  simp only [abandon]
  split
  · split
    · simp
    · next happly => simp [World.copies_apply happly]
  · split
    · simp
    · next happly => simp [World.copies_apply happly]
  · simp

/-- The guards of a suspended fiber go on the stack when it is unwound; when it is given up they are
nowhere any more. -/
theorem copies_finalize : (finalize w fs g).copies s ≤ w.copies s + copiesFrames s fs := by
  simp only [finalize]
  split
  · simp
  next fiber hfiber =>
  have htaken : (w.modify g fun x => { x with fiber := none }).copies s + fiber.state.copies s ≤
      w.copies s := World.copies_modify_sub (by simp [Generator.copies, hfiber])
  have hinside : (w.modify g fun x => { x with fiber := none, running := true }).copies s +
      fiber.state.copies s ≤ w.copies s :=
    World.copies_modify_sub (by simp [Generator.copies, hfiber])
  split
  · simp
  · simp
    omega
  · next hstate =>
    rw [hstate] at hinside
    simp at hinside ⊢
    omega
  · next hstate =>
    rw [hstate] at htaken hinside
    split
    · simp at htaken ⊢
      omega
    · simp at hinside ⊢
      omega

theorem copies_releaseEntry :
    (releaseEntry w fs g).copies s ≤ w.copies s + copiesFrames s fs := by
  simp only [releaseEntry]
  split
  · simp
  · next entry hentry =>
    have hcut : (w.modify g fun x => { x with entry := none }).copies s +
        copiesOf s entry.captures ≤ w.copies s :=
      World.copies_modify_sub (by simp [Generator.copies, hentry, Nat.add_comm])
    simp
    omega

theorem copies_clean (w : World C) (fs : List (Frame C)) (todo : List (Step C))
    (last : Option String) : (clean w fs todo last).copies s = w.copies s + copiesFrames s fs := by
  cases todo with
  | nil => cases last <;> simp [clean]
  | cons => simp [clean]

theorem copies_releasePayload :
    (releasePayload w fs g).copies s = w.copies s + copiesFrames s fs := by
  have hempty : (w.modify g .emptySlots).copies s = w.copies s :=
    World.copies_modify_of_eq (fun _ => rfl) fun _ => rfl
  simp only [releasePayload]
  split
  · simp [hempty]
  split
  · simp [hempty]
  split
  · rw [copies_clean, World.copies_note rfl]
    simp [hempty]
  · simp [hempty]

theorem copies_dropHandle :
    (dropHandle w fs g).copies s = w.copies s + copiesFrames s fs := by
  simp only [dropHandle]
  split <;> simp

theorem copies_releaseStep (w : World C) (fs : List (Frame C)) (name : String)
    (todo : List (Step C)) (rest : List (HeldGuard C)) :
    (releaseStep w fs name todo rest).copies s =
      w.copies s + copiesOf s rest + copiesFrames s fs := by
  cases todo with
  | nil => simp [releaseStep]
  | cons => simp [releaseStep]; omega

theorem copies_release (w : World C) (fs : List (Frame C)) (guards : List (HeldGuard C)) :
    (release w fs guards).copies s = w.copies s + copiesOf s guards + copiesFrames s fs := by
  cases guards with
  | nil => simp [release]
  | cons held rest =>
    rw [release, copies_releaseStep, World.copies_released, copiesOf_cons held rest]
    omega

theorem copies_releaseScope (sc : Scope C) :
    (releaseScope w fs sc).copies s ≤ w.copies s + sc.copies s + copiesFrames s fs := by
  rcases sc with held | name | source
  · simp [releaseScope]
  · simp only [releaseScope]
    split
    · simp
    · exact Nat.le_refl _
  · cases source <;> simp [releaseScope]

theorem copies_discard (announced : Bool) (fiber : Fiber C) :
    (discard w fs announced fiber).copies s ≤
      w.copies s + fiber.state.copies s + copiesFrames s fs := by
  obtain ⟨size, state⟩ := fiber
  rcases state with entry | ⟨k, scopes, captures⟩ | _ | _
  · simp [discard]
  · simp only [discard]
    split
    · cases announced <;> simp
    · cases announced <;> simp <;> omega
  · simp [discard]
  · simp [discard]

theorem copies_nameHandle (w : World C) (fs : List (Frame C)) (name : String) (g : GeneratorId)
    (a : Answer) : (nameHandle w fs name g a).copies s = w.copies s + copiesFrames s fs := by
  simp only [nameHandle]
  split <;> simp

theorem copies_nameIterator (w : World C) (fs : List (Frame C)) (name : String)
    (source : Option GeneratorId) (a : Answer) :
    (nameIterator w fs name source a).copies s = w.copies s + copiesFrames s fs := by
  simp only [nameIterator]
  split <;> simp

theorem copies_nameFiber (w : World C) (fs : List (Frame C)) (name : String) (fiber : Fiber C)
    (a : Answer) : (nameFiber w fs name fiber a).copies s =
      w.copies s + fiber.state.copies s + copiesFrames s fs := by
  have hinsert := w.copies_insert_fiber (s := s) name fiber
  simp only [nameFiber]
  split
  · next hfind =>
    simp only [hfind, Option.map_none, Option.getD_none] at hinsert
    simp only [answer, copies_mk, Control.copies]
    omega
  · next hfind =>
    simp only [hfind, Option.map_some, Option.getD_some] at hinsert
    simp only [task, copies_mk, Control.copies, Task.copies, copiesFrames_cons, Frame.copies]
    omega

theorem copies_operate (name : String) {t : GeneratorId → Task C}
    (ht : ∀ g, (t g).copies s = 0) :
    (operate w fs name t).copies s ≤ w.copies s + copiesFrames s fs := by
  simp only [operate]
  split
  · simp
  · simp only [task, copies_mk, Control.copies, ht, copiesFrames_cons, Frame.copies, Nat.zero_add,
      Nat.add_zero]
    simp

theorem copies_pullNamed (w : World C) (fs : List (Frame C)) (it : String)
    (source : Option GeneratorId) (left : Nat) (items : List (Item ErrorReport)) :
    (pullNamed w fs it source left items).copies s = w.copies s + copiesFrames s fs := by
  simp only [pullNamed]
  split
  · simp
  · exact copies_nameIterator ..

theorem copies_createFiber (f : String) (size : Nat) (captures : List (Guard C)) (entry : C) :
    (createFiber w fs f size captures entry).copies s = w.copies s + copiesFrames s fs := by
  have hhold := w.copies_holdGuards (s := s) captures
  simp only [createFiber]
  split
  · simp
    omega
  split
  · simp
    omega
  · rw [copies_nameFiber, World.copies_log]
    simp
    omega

theorem copies_switchFiber {f : String} {fiber : Fiber C} (hfind : w.fibers.find? f = some fiber) :
    (switchFiber w fs f fiber).copies s ≤ w.copies s + copiesFrames s fs := by
  have herase := w.copies_erase_fiber (s := s) f
  simp only [hfind, Option.map_some, Option.getD_some] at herase
  simp only [switchFiber]
  split
  · next hstate =>
    rw [hstate] at herase
    simp at herase ⊢
    omega
  · next hstate =>
    rw [hstate] at herase
    simp at herase ⊢
    omega
  · simp

theorem copies_makeStep (st : Step C) :
    (makeStep w fs st).copies s ≤ w.copies s + copiesFrames s fs := by
  cases st with
  | create g d => simp [makeStep, copies_nameHandle, World.copies_addGenerator]
  | resume g sent => exact copies_operate g fun _ => rfl
  | close g => exact copies_operate g fun _ => rfl
  | throw g e =>
    simp only [makeStep]
    split
    · simp
    · exact copies_operate g fun _ => rfl
  | info g | drop g | sameGenerator g h | dropIterator it | fiberInfo f =>
    simp only [makeStep]
    split <;> simp
  | clone g as =>
    simp only [makeStep]
    split <;> simp [copies_nameHandle]
  | iterate g it into =>
    simp only [makeStep]
    split
    · simp
    · cases into <;> simp [copies_nameIterator]
  | pull it count =>
    simp only [makeStep]
    split <;> simp [copies_pullNamed]
  | nameException | describe | sameException | unwind => simp [makeStep, unwindOwning]
  | createFiber f size captures entry => exact Nat.le_of_eq (copies_createFiber ..)
  | switch f =>
    simp only [makeStep]
    split
    · simp
    · next hfind => exact copies_switchFiber hfind
  | destroy f | dropFiber f | unwindDestroy f =>
    simp only [makeStep]
    split
    · simp
    · next fiber hfind =>
      have herase := w.copies_erase_fiber (s := s) f
      simp only [hfind, Option.map_some, Option.getD_some] at herase
      simp only [unwindOwning, panic, task, copies_mk, Control.copies, Task.copies,
        copiesFrames_cons, Frame.copies, List.map_cons, List.map_nil, List.sum_cons, List.sum_nil]
      omega
  | unwindFibers names =>
    have htake := total_takeNamed (fun f => f.state.copies s) w.fibers names
    simp only [makeStep, unwindOwning, panic, copies_mk, Control.copies, copiesFrames_cons,
      Frame.copies, World.copies, World.releases]
    omega

theorem copies_yield (v : Value) (k : Except Exception (Option Value) → C) :
    (yield w fs v k).copies s ≤ w.copies s + copiesFrames s fs := by
  simp only [yield]
  split
  · next scopes captures g rest hsplit =>
    obtain rfl := splitFiber_eq_some_iff.mp hsplit
    split
    · simp
    split
    · simp
    have hput (w' : World C) : (w'.modify g fun x => { x with
        value := some v
        running := false
        fiber := x.fiber.map fun f => { f with state := .suspended k scopes captures } }).copies s ≤
          w'.copies s + (copiesScopes s scopes + copiesOf s captures) := by
      refine World.copies_modify_add ?_
      cases hfiber : (w'.generator g).fiber <;> simp [Generator.copies, hfiber]
    have := hput (w.log (.switchesOut g (w.generator g).name))
    rw [World.copies_log] at this
    simp only [task, copies_mk, Control.copies, Task.copies, copiesFrames_stackFiber,
      copiesFrames_cons, Frame.copies]
    omega
  · next hsplit =>
    obtain rfl := splitFiber_eq_some_iff.mp hsplit
    rw [copies_nameFiber]
    simp
    omega
  · simp

theorem copies_holdIterator (name : String) (into : Bool) (k : Bool → C) :
    (holdIterator w fs name into k).copies s = w.copies s + copiesFrames s fs := by
  have hcalled : (w.note (.called .noHandle)).copies s = w.copies s := World.copies_note rfl
  simp only [holdIterator]
  split
  · simp [hcalled]
  · cases into <;> simp

theorem copies_useView (v : View) (k : Reply → C) :
    (useView w fs g v k).copies s = w.copies s + copiesFrames s fs := by
  have hviewed (r : Reply) : (w.note (.viewed r)).copies s = w.copies s := World.copies_note rfl
  simp only [useView]
  split
  · simp [hviewed]
  cases v with
  | is name =>
    dsimp only
    split <;> simp [hviewed]
  | info => simp [hviewed]
  | _ => simp

theorem copies_held (held : List (HeldGuard C)) :
    copiesFrames s (held.map (.scope ∘ .guard) : List (Frame C)) = copiesOf s held := by
  induction held with
  | nil => rfl
  | cons first rest ih =>
    rw [copiesOf_cons, List.map_cons, copiesFrames_cons, ih]
    rfl

theorem copies_grant (r : Request C) :
    (grant w fs r).copies s ≤ w.copies s + copiesFrames s fs := by
  have hnote {e : Event} (he : e.releases s = false) : (w.note e).copies s = w.copies s :=
    World.copies_note he
  cases r with
  | yield v k => exact copies_yield v k
  | emit v c => simp [grant, hnote (e := .emitted v) rfl]
  | caught e name c =>
    simp only [grant, code, copies_mk, Control.copies]
    rw [World.copies_note rfl]
    simp
  | producerName c =>
    simp only [grant]
    split
    · simp
    · next g _ => simp [hnote (e := .producerName (w.generator g).name) rfl]
  | append v c =>
    simp only [grant]
    split
    · simp
    · rw [code, copies_mk, World.copies_modify_of_eq]
      · simp
      · intro x
        split <;> rfl
      · intro x
        split <;> rfl
  | hold guard c =>
    have hhold := w.copies_holdGuards (s := s) [guard]
    simp only [grant, code, copies_mk, Control.copies, copiesFrames_append, copies_held]
    omega
  | holdGenerator name d c => simp [grant, copies_nameHandle, World.copies_addGenerator]
  | holdIterator name into k => exact Nat.le_of_eq (copies_holdIterator name into k)
  | pull k =>
    simp only [grant]
    split <;> simp
  | leave c =>
    simp only [grant]
    split
    · simp
      omega
    · simp
  | view v k =>
    simp only [grant]
    split
    · simp
    · exact Nat.le_of_eq (copies_useView v k)
  | _ => simp [grant]

theorem copies_leaveProducer : (leaveProducer w g).copies s ≤ w.copies s :=
  World.copies_modify_add (n := 0) (by
    cases hfiber : (w.generator g).fiber <;> simp [Generator.copies, hfiber])

theorem copies_endProducer (r : Except Exception Value) :
    (endProducer w fs g r).copies s ≤ w.copies s + copiesFrames s fs := by
  have hleave := copies_leaveProducer (w := w) (g := g) (s := s)
  simp only [endProducer]
  cases r <;> split <;> simpa using hleave

theorem copies_finishClose (r : Except OpError (Progress Value Value)) :
    (finishClose w fs g r).copies s = w.copies s + copiesFrames s fs := by
  rcases r with e | _ | _
  · cases e <;> simp [finishClose]
  · simp [finishClose]
  · simp [finishClose]

theorem copies_finishPull (k : Item OpError → C) (item : Item OpError) :
    (finishPull w fs g k item).copies s ≤ w.copies s + copiesFrames s fs := by
  simp only [finishPull]
  split <;> simp

theorem copies_finishNamedPull (it : String) (left : Nat) (items : List (Item ErrorReport))
    (item : Item OpError) :
    (finishNamedPull w fs it g left items item).copies s = w.copies s + copiesFrames s fs := by
  cases item with
  | value => exact copies_pullNamed ..
  | failed | ended => simp [finishNamedPull]

@[simp] theorem copies_reportItem (item : Item OpError) :
    (reportItem w item).2.copies s = w.copies s := by
  cases item <;> rfl

@[simp] theorem copies_reportProgress (r : Except OpError (Progress Value Value)) :
    (reportProgress w r).2.copies s = w.copies s := by
  rcases r with e | _ | _ <;> rfl

@[simp] theorem copies_reportClosed (r : Except OpError Unit) :
    (reportClosed w r).2.copies s = w.copies s := by
  cases r <;> rfl

theorem copies_deliver (a : Answer) :
    (deliver w a fs).copies s ≤ w.copies s + copiesFrames s fs := by
  obtain _ | ⟨top, fs⟩ := fs
  · simp [deliver]
  cases top with
  | scope | closure | keeping | catching | unwinding | resuming | entering | dismantling | emptying
  | holding =>
    simp [deliver]
    try omega
  | destroying g => simp [deliver]
  | violating g =>
    simp only [deliver]
    split <;> simp
  | endingNamed => simp [deliver, copies_pullNamed]
  | driving g =>
    cases a
    case outcome r => simpa [deliver] using copies_endProducer r
    all_goals simp [deliver]
  | switching f size =>
    cases a
    case outcome r => simp [deliver, copies_nameFiber]
    all_goals simp [deliver]
  | pulling g k =>
    cases a
    case progress r => simpa [deliver] using copies_finishPull k (itemOf r)
    all_goals simp [deliver]
  | pullingNamed it g left items =>
    cases a
    case progress r => simp [deliver, copies_finishNamedPull]
    all_goals simp [deliver]
  | closing g =>
    cases a
    case progress r => simp [deliver, copies_finishClose]
    all_goals simp [deliver]
  | calling catchesPanics k =>
    cases a
    case reply r => simp [deliver, World.copies_note (s := s) (e := .called r) rfl]
    all_goals simp [deliver]
  | cleaning todo last =>
    cases a
    case reply r => simp [deliver, copies_clean, World.copies_note (s := s) (e := .onCleanup r) rfl]
    all_goals simp [deliver]
  | onRelease name todo rest =>
    cases a
    case reply r =>
      simp only [deliver, copies_releaseStep]
      rw [World.copies_note rfl]
      simp
      omega
    all_goals simp [deliver]
  | viewing g k =>
    have hviewed (w' : World C) (r : Reply) : (w'.note (.viewed r)).copies s = w'.copies s :=
      World.copies_note rfl
    cases a <;> simp [deliver, hviewed]
  | reporting => cases a <;> simp [deliver]
  | dropping g =>
    cases a
    case closed r => cases r <;> simp [deliver]
    all_goals simp [deliver]
  | _ => simp [deliver]

theorem copies_leave (u : Unwinding) :
    (leave w u fs).copies s ≤ w.copies s + copiesFrames s fs := by
  have hleave (g : GeneratorId) := copies_leaveProducer (w := w) (g := g) (s := s)
  obtain _ | ⟨top, fs⟩ := fs
  · simp [leave]
  cases top with
  | driving g => simpa [leave] using hleave g
  | destroying g => cases u <;> simpa [leave] using hleave g
  | owningHandles gs => cases gs <;> simp [leave]
  | owningFibers announced fibers =>
    cases fibers with
    | nil => cases u <;> simp [leave]
    | cons f rest =>
      simp [leave]
      omega
  | pullingNamed | endingNamed => simp [leave, copies_nameIterator]
  | switching f size => simp [leave, copies_nameFiber]
  | calling catchesPanics k =>
    have hcalled (r : Reply) : (w.note (.called r)).copies s = w.copies s := World.copies_note rfl
    cases catchesPanics <;> cases u <;> simp [leave, hcalled]
  | cleaning todo last =>
    have hcleaned (r : Reply) : (w.note (.onCleanup r)).copies s = w.copies s :=
      World.copies_note rfl
    cases u <;> simp [leave, copies_clean, hcleaned]
  | onRelease name todo rest =>
    have hreleased (r : Reply) : (w.note (.onRelease name r)).copies s = w.copies s :=
      World.copies_note rfl
    cases u
    · simp [leave, copies_releaseStep, hreleased]
      omega
    · simp [leave]
  | scope sc | closure captures =>
    simp [leave]
    omega
  | _ => cases u <;> simp [leave]

theorem copies_perform (t : Task C) :
    (perform w fs t).copies s ≤ w.copies s + t.copies s + copiesFrames s fs := by
  cases t with
  | resume => exact Nat.le_of_eq (copies_resume _)
  | start => exact copies_start
  | throw => exact Nat.le_of_eq (copies_throwInto _)
  | close => exact Nat.le_of_eq copies_close
  | drive => exact copies_drive
  | wake => exact Nat.le_of_eq (copies_wake _)
  | suspended => exact Nat.le_of_eq copies_suspended
  | terminated => exact Nat.le_of_eq copies_terminated
  | abandon => exact Nat.le_of_eq copies_abandon
  | finalize => exact copies_finalize
  | releaseEntry => exact copies_releaseEntry
  | releasePayload => exact Nat.le_of_eq copies_releasePayload
  | dropHandle => exact Nat.le_of_eq copies_dropHandle
  | release guards => exact Nat.le_of_eq (copies_release ..)
  | releaseScope sc => exact copies_releaseScope sc
  | discard announced fiber => exact copies_discard announced fiber
  | step st => exact copies_makeStep st

variable {P : Program C} {m m' : Machine C} {ms : List (Machine C)} {held : HeldGuard C}

/-- No move makes another copy of a guard. -/
theorem copies_next (m : Machine C) : (m.next P).copies s ≤ m.copies s := by
  obtain ⟨w, control, fs⟩ := m
  cases control with
  | code c => exact copies_grant (P.next c)
  | task t => exact copies_perform t
  | answer a => exact copies_deliver a
  | unwind u => exact copies_leave u
  | aborted | stuck => exact Nat.le_refl _

theorem copies_again (st : Step C) :
    (Machine.mk m.world (.task (.step st)) []).copies s ≤ m.copies s := by
  simp [copies]
  omega

theorem copies_of_later (h : Later P m m') : m'.copies s ≤ m.copies s := by
  induction h with
  | refl => exact Nat.le_refl _
  | move _ ih => exact Nat.le_trans (copies_next _) ih
  | again st _ _ ih => exact Nat.le_trans (copies_again st) ih

/-- A guard is in one place at most. -/
theorem copies_le_one (h : Reachable P m) (s : Nat) : m.copies s ≤ 1 := by
  induction h with
  | start stackMemory st => exact Nat.le_refl 1
  | move _ ih => exact Nat.le_trans (copies_next _) ih
  | again st _ _ ih => exact Nat.le_trans (copies_again st) ih

end Machine

end Coroutine
