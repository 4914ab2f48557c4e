import Coroutine.Proofs.Change

/-! The records of a generator: what the log says about it. Main statement: what a move that is
no part of an operation on a generator records of it, which is nothing but remarks, unless its
producer yields. -/

namespace Coroutine

variable {C : Type}

/-- Whether a caller asks for the operation. The others are events of the producer. -/
def Operation.isRequest : Operation → Bool
  | resume | throw | close => true
  | yielded | terminated => false

namespace World

/-- The records of `g` so far, the latest first. -/
def records (g : GeneratorId) (w : World C) : List Record := w.history.filterMap (Event.record? g)

variable {w w' : World C} {g k : GeneratorId}

@[simp] theorem records_modify (φ : Generator C → Generator C) :
    (w.modify k φ).records g = w.records g := rfl

theorem records_log {r : Record} (hr : r.generator? = some g) :
    (w.log r).records g = r :: w.records g := by
  simp [records, log, Event.record?, hr]

/-- An operation is recorded with the generator's status and with what the table says. -/
theorem records_apply {op : Operation} {a : Action} (h : w.apply g op = .ok (w', a)) :
    w'.records g = .transition g (w.generator g).name (w.generator g).status op
      (transition (w.generator g).status op).1 a :: w.records g ∧
      (transition (w.generator g).status op).2 = a ∧ a ≠ .illegal := by
  simp only [apply] at h
  split at h
  · cases h
  · next hlegal =>
    cases h
    refine ⟨(records_log rfl).trans ?_, rfl, hlegal⟩
    split <;> rfl

end World

theorem Control.switches?_ne {c : Control C} (h : c.switches? = none) (g : GeneratorId) :
    c.switches? ≠ some g := h ▸ (Option.some_ne_none g).symm

namespace Machine

/-- From `w` on nothing but remarks was recorded of `g`, and no switch into or out of it is being
made. -/
structure Reticent (g : GeneratorId) (w : World C) (m : Machine C) : Prop where
  records : ∃ rs, (∀ r ∈ rs, r.isRemark = true) ∧ m.world.records g = rs ++ w.records g
  calm : m.control.switches? ≠ some g

variable {w : World C} {fs : List (Frame C)} {g : GeneratorId} {m : Machine C}

theorem Reticent.idle (hrecords : m.world.records g = w.records g)
    (hcalm : m.control.switches? = none) : Reticent g w m :=
  ⟨⟨[], List.forall_mem_nil _, hrecords⟩, Control.switches?_ne hcalm g⟩

variable {P : Program C}

/-- Edits of a move that does nothing with `g` enter nothing but remarks. -/
theorem Edited.records (h : Edited P m w) (hg : ¬ Acts P g m) :
    ∃ rs, (∀ r ∈ rs, r.isRemark = true) ∧ w.records g = rs ++ m.world.records g := by
  induction h with
  | start =>
    obtain ⟨l, hl⟩ := m.credited_eq
    rw [hl]
    exact ⟨[], List.forall_mem_nil _, rfl⟩
  | @note w e _ htells ih =>
    obtain ⟨rs, hremarks, hrecords⟩ := ih
    cases hrecord : e.record? g with
    | none => exact ⟨rs, hremarks, by simpa [World.records, hrecord] using hrecords⟩
    | some r =>
      have hremark := (htells.records g r hrecord).resolve_right hg
      refine ⟨r :: rs, List.forall_mem_cons.mpr ⟨hremark, hremarks⟩, ?_⟩
      simpa [World.records, hrecord] using hrecords
  | add _ _ ih => simpa [World.records, World.addGenerator, World.holdGuards_snd] using ih
  | alter _ _ _ _ ih | pay _ _ _ ih | retain _ _ ih | drop _ _ ih | guards _ ih | handles _ ih
  | fibers _ ih | iterators _ _ ih | ledger _ _ _ ih => exact ih

theorem Effect.reticent {y : Option GeneratorId} {m' : Machine C} (h : Effect P m y fs m')
    (hg : ¬ Acts P g m) : Reticent g m.world m' :=
  ⟨h.edited.records hg, fun hswitches => hg (h.switches g hswitches)⟩

/-- Only tasks that can be recorded of `g` record more of it than remarks. No program runs in a
task, so any will do. -/
theorem reticent_perform {t : Task C} (ht : t.recorded? ≠ some g) :
    Reticent g w (perform w fs t) := by
  refine (effect_perform (P := ⟨fun _ => .panic ""⟩) t).reticent ?_
  intro hacts
  cases hacts with
  | operates hcontrol hrecorded =>
    cases hcontrol
    exact ht hrecorded
  | yields hcontrol => cases hcontrol

theorem control_clean (todo : List (Step C)) (last : Option String) :
    (clean w fs todo last).control.switches? = none := by
  cases todo <;> cases last <;> rfl

/-- Only operations on `g` and its own producer, when it yields, record more of it than remarks. -/
theorem reticent_next (hop : ∀ t, m.control = .task t → t.operates? ≠ some g)
    (hyield : ∀ c v k, m.control = .code c → P.next c = .yield v k →
      producer? m.frames ≠ some g) : Reticent g m.world (m.next P) := by
  obtain ⟨y, fs, -, heffect⟩ := effect_next P m
  refine heffect.reticent fun hacts => ?_
  cases hacts with
  | operates hcontrol ht => exact hop _ hcontrol (Task.operates?_of_recorded? ht)
  | yields hcontrol hP hproducer => exact hyield _ _ _ hcontrol hP hproducer

end Machine

end Coroutine
