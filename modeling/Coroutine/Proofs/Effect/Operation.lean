import Coroutine.Proofs.Effect

/-! What the operations on a generator do, and what releases do. Each function of the machine that
does one has its effect here, stated for the task that it does. -/

namespace Coroutine.Machine

variable {C : Type} {P : Program C} {m : Machine C} {w w' : World C} {fs : List (Frame C)}
  {g : GeneratorId} {y : Option GeneratorId}

theorem Edited.task {t : Task C} : Edited P (task w fs t) w := .start

/-! ### Operations on a generator -/

theorem effect_resume (sent : Option Value) :
    Effect P (task w fs (.resume g sent)) none fs (resume w fs g sent) := by
  have h : Edited P (task w fs (.resume g sent)) w := .task
  have hg : Acts P g (task w fs (.resume g sent)) := .operates rfl rfl
  simp only [resume]
  split
  · exact .answers h _
  split
  · exact .answers h _
  split
  · exact .faults h _
  · next happly => exact .hands (h.apply hg happly) hg rfl rfl
  · next happly =>
    have happlied := h.apply hg happly
    split
    · exact .hands happlied hg rfl rfl
    split
    · exact .faults happlied _
    · exact .hands (happlied.alter hg.concerns (fun _ => rfl) fun _ => rfl) hg rfl rfl
  · next happly => exact .answers (h.apply hg happly) _
  · next happly => exact .faults (h.apply hg happly) _

theorem effect_start : Effect P (task w fs (.start g)) none fs (start w fs g) := by
  have h : Edited P (task w fs (.start g)) w := .task
  have hg : Acts P g (task w fs (.start g)) := .operates rfl rfl
  simp only [start]
  split
  · exact .answers h _
  split
  · exact .answers h _
  have hentry : Edited P (task w fs (.start g)) (w.modify g fun x => { x with entry := none }) :=
    h.alter hg.concerns (fun _ => rfl) fun _ => rfl
  split
  · exact .under _ (.under _ (.asks hentry rfl rfl) rfl) rfl
  · have hlogged := (hentry.mention (r := .allocated (w.generator g).stackSize) rfl).record hg
      (r := .starts g (w.generator g).name (w.generator g).stackSize) rfl fun _ => rfl
    exact .hands (hlogged.alter hg.concerns (fun _ => rfl) fun _ => rfl) hg rfl rfl

/-- A generator that an exception is raised to, or that is closed, may be finalized at once. -/
theorem effect_throwInto (e : Exception) :
    Effect P (task w fs (.throw g e)) none fs (throwInto w fs g e) := by
  have h : Edited P (task w fs (.throw g e)) w := .task
  have hg : Acts P g (task w fs (.throw g e)) := .operates rfl rfl
  simp only [throwInto]
  split
  · exact .answers h _
  next hrun =>
  split
  · exact .faults h _
  · next happly =>
    have hbegins : Endable g (task w fs (.throw g e)) :=
      .thrown rfl (Bool.eq_false_of_not_eq_true hrun)
    exact .under _ (.begins (h.apply hg happly) hbegins) rfl
  · next happly =>
    have hlogged := (h.apply hg happly).remark
      (r := .injects g (w.generator g).name e.kind) rfl fun _ => rfl
    split
    · exact .faults hlogged _
    · exact .hands (hlogged.alter hg.concerns (fun _ => rfl) fun _ => rfl) hg rfl rfl
  · next happly => exact .faults (h.apply hg happly) _

theorem not_finished_of_close (h : w.apply g .close = .ok (w', .finalize)) :
    (w.generator g).status ≠ .finished := by
  intro hs
  simp [World.apply, hs, transition] at h

theorem effect_close : Effect P (task w fs (.close g)) none fs (close w fs g) := by
  have h : Edited P (task w fs (.close g)) w := .task
  have hg : Acts P g (task w fs (.close g)) := .operates rfl rfl
  simp only [close]
  split
  · exact .answers h _
  split
  · exact .faults h _
  · next happly => exact .answers (h.apply hg happly) _
  · next happly =>
    have hbegins : Endable g (task w fs (.close g)) := .unended (not_finished_of_close happly)
    exact .under _ (.begins (h.apply hg happly) hbegins) rfl
  · next happly =>
    have hlogged := ((h.apply hg happly).remark
      (r := .closes g (w.generator g).name) rfl fun _ => rfl).create .exit
    split
    · exact .faults hlogged _
    · refine .under (.closing g) (.hands ?_ hg rfl rfl) rfl
      exact hlogged.alter hg.concerns (fun _ => rfl) fun _ => rfl
  · next happly => exact .faults (h.apply hg happly) _

theorem effect_drive : Effect P (task w fs (.drive g)) none fs (drive w fs g) := by
  have h : Edited P (task w fs (.drive g)) w := .task
  have hg : Acts P g (task w fs (.drive g)) := .operates rfl rfl
  have hlogged := h.record hg (r := .switchesIn g (w.generator g).name) rfl fun _ => rfl
  simp only [drive]
  split
  · exact .asks h rfl rfl
  split
  · exact .faults h _
  · exact .asks hlogged rfl rfl
  · next entry _ =>
    refine .under (.driving g) (.under_stackFiber [] entry.captures ?_) rfl
    split
    · refine .faults ?_ _
      exact hlogged.alter hg.concerns (fun _ => rfl) fun _ => rfl
    · refine .runs ?_ _
      exact hlogged.alter hg.concerns (fun _ => rfl) fun _ => rfl
  · next scopes captures _ =>
    refine .under (.driving g) (.under_stackFiber scopes captures (.hands ?_ hg rfl rfl)) rfl
    exact hlogged.alter hg.concerns (fun _ => rfl) fun _ => rfl

theorem effect_wake (k : Except Exception (Option Value) → C) :
    Effect P (task w fs (.wake g k)) none fs (wake w fs g k) := by
  have h : Edited P (task w fs (.wake g k)) w := .task
  have hg : Acts P g (task w fs (.wake g k)) := .operates rfl rfl
  have hlogged := h.record hg (r := .switchedBack g (w.generator g).name) rfl fun _ => rfl
  simp only [wake]
  split
  · next e _ =>
    refine .runs
      (.remark (r := .raisesInjected g (w.generator g).name e.kind) ?_ rfl fun _ => rfl) _
    exact hlogged.alter hg.concerns (fun _ => rfl) fun _ => rfl
  · refine .runs ?_ _
    exact hlogged.alter hg.concerns (fun _ => rfl) fun _ => rfl

theorem effect_suspended : Effect P (task w fs (.suspended g)) none fs (suspended w fs g) := by
  have h : Edited P (task w fs (.suspended g)) w := .task
  have hg : Acts P g (task w fs (.suspended g)) := .operates rfl rfl
  simp only [suspended]
  split
  · exact .faults h _
  next happly =>
  have happlied := h.apply hg happly
  split
  · refine .answers ?_ _
    exact happlied.alter hg.concerns (fun _ => rfl) fun _ => rfl
  · exact .faults happlied _

theorem effect_terminated : Effect P (task w fs (.terminated g)) none fs (terminated w fs g) := by
  have h : Edited P (task w fs (.terminated g)) w := .task
  have hg : Acts P g (task w fs (.terminated g)) := .operates rfl rfl
  simp only [terminated]
  split
  · exact .faults h _
  · next happly =>
    refine .under _ (.begins ?_ (.terminated rfl)) rfl
    exact (h.apply hg happly).alter hg.concerns (fun _ => rfl) fun _ => rfl

theorem effect_abandon : Effect P (task w fs (.abandon g)) none fs (abandon w fs g) := by
  have h : Edited P (task w fs (.abandon g)) w := .task
  have hg : Acts P g (task w fs (.abandon g)) := .operates rfl rfl
  have hopen (hs : (w.generator g).status ≠ .finished) : Endable g (task w fs (.abandon g)) :=
    .unended hs
  simp only [abandon]
  split
  · next hs =>
    split
    · exact .faults h _
    · next happly => exact .begins (h.apply hg happly) (hopen (by simp [hs]))
  · next hs =>
    split
    · exact .faults h _
    · next happly => exact .begins (h.apply hg happly) (hopen (by simp [hs]))
  · exact .answers h _

/-! ### Ending a generator -/

/-- A stack is unwound by force only if no frames are being unwound. -/
theorem effect_finalize : Effect P (task w fs (.finalize g)) (some g) fs (finalize w fs g) := by
  have h : Edited P (task w fs (.finalize g)) w := .task
  have hg : Concerns P g (task w fs (.finalize g)) := .operates rfl rfl
  simp only [finalize]
  split
  · exact .goes h rfl
  split
  · exact .faults h _
  · exact .goes (h.alter hg (fun _ => rfl) fun _ => rfl) rfl
  · refine .beneath (.destroying g) (.asks ?_ rfl rfl)
    exact h.alter hg (fun _ => rfl) fun _ => rfl
  · next scopes captures _ =>
    split
    · refine .goes (.mention (r := .abandonsFiber (stackGuards scopes captures)) ?_ rfl) rfl
      exact h.alter hg (fun _ => rfl) fun _ => rfl
    · next hpanicking =>
      refine .beneath (.destroying g) (.under_stackFiber scopes captures (.raises
        (.mention (r := .unwindsFiber) ?_ rfl) (.cancel (Bool.eq_false_of_not_eq_true hpanicking))))
      exact h.alter hg (fun _ => rfl) fun _ => rfl

theorem effect_releaseEntry :
    Effect P (task w fs (.releaseEntry g)) (some g) fs (releaseEntry w fs g) := by
  have h : Edited P (task w fs (.releaseEntry g)) w := .task
  have hg : Concerns P g (task w fs (.releaseEntry g)) := .operates rfl rfl
  simp only [releaseEntry]
  split
  · exact .goes h rfl
  · refine .beneath (.emptying g) (.asks ?_ rfl rfl)
    exact h.alter hg (fun _ => rfl) fun _ => rfl

theorem effect_clean (h : Edited P m w) (todo : List (Step C)) (last : Option String) :
    Effect P m y fs (clean w fs todo last) := by
  cases todo with
  | cons => exact .under _ (.asks h rfl rfl) rfl
  | nil =>
    cases last with
    | none => exact .answers h _
    | some message => exact .raises h (.user message)

theorem effect_releasePayload :
    Effect P (task w fs (.releasePayload g)) (some g) fs (releasePayload w fs g) := by
  have hg : Acts P g (task w fs (.releasePayload g)) := .operates rfl rfl
  have hpays : Pays P g (task w fs (.releasePayload g)) := .releases rfl
  have hsettles {k : GeneratorId} (hk : (g == k) = true) :
      (task w fs (.releasePayload g)).control = .task (.releasePayload k) := by
    rw [← beq_iff_eq.mp hk]
    rfl
  have hslots : Edited P (task w fs (.releasePayload g)) (w.modify g .emptySlots) :=
    Edited.task.alter hg.concerns (fun _ => rfl) fun _ => rfl
  simp only [releasePayload]
  split
  · exact .answers hslots _
  next cleanup _ =>
  have hcut : Edited P (task w fs (.releasePayload g))
      (((w.modify g .emptySlots).modify g fun x => { x with cleanup := none }).log
        (.finalizes g ((w.modify g .emptySlots).generator g).name)) := by
    refine .record ?_ hg rfl fun _ => rfl
    exact hslots.pay hpays fun _ => rfl
  split
  · exact .answers (hcut.log (fun _ => hsettles) fun _ _ => .inl rfl) _
  · have hpaid := hcut.pay hpays (φ := fun x => { x with payload := none }) fun _ => rfl
    split
    · exact effect_clean (hpaid.note ⟨fun _ => hsettles, fun _ _ hr => by cases hr⟩) ..
    · exact .answers hpaid _

theorem effect_dropHandle : Effect P (task w fs (.dropHandle g)) none fs (dropHandle w fs g) := by
  have hdropped : Edited P (task w fs (.dropHandle g))
      (w.modify g fun x => { x with handles := x.handles - 1 }) := Edited.task.drop rfl
  simp only [dropHandle]
  split
  · exact .under _ (.asks hdropped rfl rfl) rfl
  · exact .answers hdropped _

/-! ### Releases -/

theorem effect_releaseStep (h : Edited P m w) (name : String) (todo : List (Step C))
    (rest : List (HeldGuard C)) : Effect P m y fs (releaseStep w fs name todo rest) := by
  cases todo with
  | nil => exact .asks h rfl rfl
  | cons => exact .under _ (.asks h rfl rfl) rfl

theorem effect_release (guards : List (HeldGuard C)) :
    Effect P (task w fs (.release guards)) none fs (release w fs guards) := by
  cases guards with
  | nil => exact .answers .task _
  | cons => exact effect_releaseStep (Edited.task.tell (fun _ => rfl) fun _ => rfl) ..

theorem effect_releaseScope (s : Scope C) :
    Effect P (task w fs (.releaseScope s)) none fs (releaseScope w fs s) := by
  rcases s with _ | name | _ | _
  · exact .asks .task rfl rfl
  · simp only [releaseScope]
    split
    · exact .answers .task _
    · exact .asks Edited.task.handles rfl rfl
  · exact .answers .task _
  · exact .asks .task rfl rfl

theorem effect_discard (announced : Bool) (fiber : Fiber C) :
    Effect P (task w fs (.discard announced fiber)) none fs (discard w fs announced fiber) := by
  have hannounced {r : Record} (hr : r.generator? = none) :
      Edited P (task w fs (.discard announced fiber)) (if announced then w.log r else w) := by
    split
    · exact Edited.task.mention hr
    · exact .task
  simp only [discard]
  split
  · exact .asks .task rfl rfl
  · next scopes captures _ =>
    split
    · exact .answers (hannounced rfl) _
    · next hpanicking =>
      refine .under .dismantling (.under_stackFiber scopes captures ?_) rfl
      exact .raises (hannounced rfl) (.cancel (Bool.eq_false_of_not_eq_true hpanicking))
  · exact .answers .task _

end Coroutine.Machine
