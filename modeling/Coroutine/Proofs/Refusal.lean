import Coroutine.Proofs.Outcome
import Coroutine.Proofs.Reentrancy
import Coroutine.Proofs.Representation

/-! Operations that are turned away. Main statement: an operation that comes back with an error other
than an exception, on a generator that has not panicked, has come back at once; nothing is changed and
nothing is run, but a record is made. -/

namespace Coroutine

variable {C : Type}

/-- The error that an operation comes back with. -/
def Answer.error? : Answer → Option OpError
  | .progress (.error e) | .closed (.error e) => some e
  | _ => none

/-- What the operation comes back with when it fails. -/
def Task.failure (e : OpError) : Task C → Answer
  | close _ => .closed (.error e)
  | _ => .progress (.error e)

/-- An operation on `x` that comes back with this error has been turned away. When a generator is
exhausted that has not ended, its producer has panicked. -/
def OpError.TurnsAway (x : Generator C) : OpError → Prop
  | reentrancy _ | sentBeforeStart _ | fiberAllocation _ _ => True
  | exhausted _ => x.status = .finished
  | raised _ => False

theorem OpError.TurnsAway.of_status {x y : Generator C} {e : OpError} (he : e.TurnsAway x)
    (hs : y.status = x.status) : e.TurnsAway y := by
  cases e with
  | exhausted => exact hs.trans he
  | raised => exact he.elim
  | _ => trivial

/-- The world in which the exception has been made that a step throws. -/
def Step.prepare (w : World C) : Step C → World C
  | throw _ e => (w.make e).2
  | _ => w

theorem Step.generator_prepare (s : Step C) (w : World C) (g : GeneratorId) :
    (s.prepare w).generator g = w.generator g := by
  cases s <;> rfl

theorem Step.memory_prepare (s : Step C) (w : World C) :
    (s.prepare w).stackMemory = w.stackMemory := by
  cases s <;> rfl

/-- The world in which the exception has been made that a producer throws into its own generator. -/
def View.prepare (w : World C) : View → World C
  | throw e => (w.make e).2
  | _ => w

theorem View.generator_prepare (v : View) (w : World C) (g : GeneratorId) :
    (v.prepare w).generator g = w.generator g := by
  cases v <;> rfl

theorem View.memory_prepare (v : View) (w : World C) :
    (v.prepare w).stackMemory = w.stackMemory := by
  cases v <;> rfl

/-- The world in which these records have been made, the latest first. -/
def World.recorded (w : World C) (rs : List Record) : World C :=
  { w with history := rs.map .logged ++ w.history }

namespace Machine

/-- The operation on `g`, which looks like `x`, is turned away, with an error and with records. -/
inductive Refused (g : GeneratorId) (x : Generator C) : Task C → OpError → List Record → Prop
  | reentrant {t : Task C} : t.asks? = some g → x.running = true →
      Refused g x t (.reentrancy x.name) []
  | early (v : Value) : x.running = false → x.status = .unused →
      Refused g x (.resume g (some v)) (.sentBeforeStart x.name) []
  | stackless : x.running = false → x.status = .unused → stackSizeInRange x.stackSize = false →
      Refused g x (.resume g none) (.fiberAllocation x.name x.stackSize)
        [.transition g x.name .unused .resume .running .start]
  | exhausted (sent : Option Value) : x.running = false → x.status = .finished →
      Refused g x (.resume g sent) (.exhausted x.name)
        [.transition g x.name .finished .resume .finished .exhausted]

variable {P : Program C} {g : GeneratorId} {w w' : World C} {fs : List (Frame C)} {t : Task C}
  {m m' m₁ : Machine C} {ms : List (Machine C)} {a b : Answer} {e : OpError} {rs : List Record}
  {s : Step C} {name : String} {v : View} {c c' : C} {k : Reply → C}

/-! ### What is turned away -/

/-- An operation that is turned away comes back with its next move, but for one that a stack would be
allocated for: its move after that. -/
theorem Refused.next (h : Refused g (w.generator g) t e rs) (fs : List (Frame C)) :
    next P ⟨w, .task t, fs⟩ = ⟨w.recorded rs, .answer (t.failure e), fs⟩ ∨
      next P ⟨w, .task t, fs⟩ = ⟨w.recorded rs, .task (.start g), fs⟩ ∧
        next P ⟨w.recorded rs, .task (.start g), fs⟩ =
          ⟨w.recorded rs, .answer (t.failure e), fs⟩ := by
  cases h with
  | reentrant ht hrun =>
    refine .inl ?_
    cases t with
    | resume k sent => cases ht; exact resume_of_running fs hrun sent
    | throw k e => cases ht; exact throwInto_of_running fs hrun e
    | close k => cases ht; exact close_of_running fs hrun
    | _ => cases ht
  | early v hrun hs => exact .inl (resume_sent fs hrun hs v)
  | stackless hrun hs hrange =>
    have happly := World.apply_eq_log (w := w) (g := g) (o := .resume) (n := .running)
      (a := .start) (by rw [hs]; rfl) (by decide) (.inl rfl)
    refine .inr ⟨?_, start_failed (w := w.recorded _) fs (.inl hrange)⟩
    show resume w fs g none = _
    simp [resume, hrun, happly, hs]
    rfl
  | exhausted sent hrun hs =>
    have happly := World.apply_eq_log (w := w) (g := g) (o := .resume) (n := .finished)
      (a := .exhausted) (by rw [hs]; rfl) (by decide) (.inr hs.symm)
    refine .inl ?_
    show resume w fs g sent = _
    simp [resume, hrun, happly, hs]
    rfl

theorem Refused.within (h : Refused g (w.generator g) t e rs) (fs : List (Frame C)) :
    Within P fs ⟨w, .task t, fs⟩ ⟨w.recorded rs, .answer (t.failure e), fs⟩ := by
  rcases h.next (P := P) fs with hnext | ⟨hnext, hback⟩
  · exact .of_task (List.suffix_refl fs) hnext (.refl _)
  · exact .of_task (List.suffix_refl fs) hnext (.of_task (List.suffix_refl fs) hback (.refl _))

/-- Until it is back no code is run, and nothing is begun that would have to be waited for. -/
theorem Refused.between (h : Refused g (w.generator g) t e rs)
    (hm₁ : Within P fs ⟨w, .task t, fs⟩ m₁) :
    m₁.frames = fs ∧ (∀ c, m₁.control ≠ .code c) ∧
      (m₁.world = w ∨ m₁.world = w.recorded rs) := by
  by_cases hfirst : ⟨w, .task t, fs⟩ = m₁
  · subst hfirst
    exact ⟨rfl, nofun, .inl rfl⟩
  have hm₁ := hm₁.of_ne hfirst
  rcases h.next (P := P) fs with hnext | ⟨hnext, hback⟩
  · rw [hnext] at hm₁
    rw [hm₁.eq_answer]
    exact ⟨rfl, nofun, .inr rfl⟩
  · rw [hnext] at hm₁
    by_cases hstart : ⟨w.recorded rs, .task (.start g), fs⟩ = m₁
    · subst hstart
      exact ⟨rfl, nofun, .inr rfl⟩
    have hm₁ := hm₁.of_ne hstart
    rw [hback] at hm₁
    rw [hm₁.eq_answer]
    exact ⟨rfl, nofun, .inr rfl⟩

/-! ### What comes back as if it was turned away -/

/-- A producer that has run is over with an exception, or had panicked. -/
theorem Reported.not_turnsAway {x : Generator C} (h : Reported P g fs m m' b)
    (hb : b.error? = some e) (hs : x.status ≠ .finished) : ¬ e.TurnsAway x := by
  cases h with
  | yields => cases hb
  | exhausted => cases hb; exact hs
  | @ends w r =>
    cases r with
    | ok => cases hb
    | error => cases hb; exact id

theorem refused_of_resume {sent : Option Value}
    (hrun : Run P (⟨w, .task (.resume g sent), fs⟩ :: ms)) (hmemory : maxStackSize ≤ w.stackMemory)
    (h : Within P fs ⟨w, .task (.resume g sent), fs⟩ ⟨w', .answer a, fs⟩) (ha : a.error? = some e)
    (he : e.TurnsAway (w.generator g)) : ∃ rs, Refused g (w.generator g) (.resume g sent) e rs := by
  have hm := hrun.reachable
  have hsound := hm.sound
  obtain ⟨κ, hκ, rfl⟩ := hsound.order
  have hlt : g < w.generators.size := hsound.lt_size_of_operand hκ rfl
  have hrest : Rest (Coroutine.marks fs) g (w.generator g) := hsound.rest rfl
  have hnext : Within P fs (resume w fs g sent) _ := h.of_ne nofun
  have hm₁ : Reachable P (resume w fs g sent) := hm.move
  cases hrunning : (w.generator g).running with
  | true =>
    rw [resume_of_running fs hrunning sent] at hnext
    rw [hnext.eq_of_answer] at ha
    cases ha
    exact ⟨_, .reentrant rfl hrunning⟩
  | false =>
  obtain ⟨-, -, hidle⟩ := hrest.idle_of_not_running hrunning
  cases hs : (w.generator g).status with
  | unused =>
    cases sent with
    | some v =>
      rw [resume_sent fs hrunning hs v] at hnext
      rw [hnext.eq_of_answer] at ha
      cases ha
      exact ⟨_, .early v hrunning hs⟩
    | none =>
      obtain ⟨w₁, hresume, hb₁, hmemory₁⟩ := resume_unused fs hrunning hs
      rw [hresume] at hnext hm₁
      have hstart : Within P fs (start w₁ fs g) _ := hnext.of_ne nofun
      have hm₂ : Reachable P (start w₁ fs g) := hm₁.move
      cases hrange : stackSizeInRange (w.generator g).stackSize with
      | false =>
        rw [start_failed fs (.inl (hb₁.self ▸ hrange))] at hstart
        rw [hstart.eq_of_answer, hb₁.self] at ha
        cases ha
        exact ⟨_, .stackless hrunning hs hrange⟩
      | true =>
        obtain ⟨entry, hentry⟩ :=
          Option.isSome_iff_exists.mp ((traced_of_run hrun hmemory g).unused hs)
        obtain ⟨w₂, hdrive, -⟩ := start_unused fs (hb₁.self ▸ hentry) (hb₁.self ▸ hrange)
          (hb₁.self ▸ hmemory₁ ▸ (le_maxStackSize hrange).trans hmemory) (hb₁.size ▸ hlt)
        rw [hdrive] at hstart hm₂
        exact absurd he ((reported_of_drive hm₂ hstart).not_turnsAway ha (by rw [hs]; nofun))
  | running =>
    obtain ⟨w₁, hresume, -⟩ := resume_running fs hrunning hs hidle.slots.value hlt sent
    rw [hresume] at hnext hm₁
    exact absurd he ((reported_of_drive hm₁ hnext).not_turnsAway ha (by rw [hs]; nofun))
  | finished =>
    obtain ⟨w₁, hresume, -⟩ := resume_finished fs hrunning hs sent
    rw [hresume] at hnext
    rw [hnext.eq_of_answer] at ha
    cases ha
    exact ⟨_, .exhausted sent hrunning hs⟩

theorem refused_of_throw {x : Exception} (hm : Reachable P ⟨w, .task (.throw g x), fs⟩)
    (h : Within P fs ⟨w, .task (.throw g x), fs⟩ ⟨w', .answer a, fs⟩) (ha : a.error? = some e)
    (he : e.TurnsAway (w.generator g)) : ∃ rs, Refused g (w.generator g) (.throw g x) e rs := by
  have hsound := hm.sound
  obtain ⟨κ, hκ, rfl⟩ := hsound.order
  have hlt : g < w.generators.size := hsound.lt_size_of_operand hκ rfl
  have hrest : Rest (Coroutine.marks fs) g (w.generator g) := hsound.rest rfl
  have hnext : Within P fs (throwInto w fs g x) _ := h.of_ne nofun
  have hm₁ : Reachable P (throwInto w fs g x) := hm.move
  cases hrunning : (w.generator g).running with
  | true =>
    rw [throwInto_of_running fs hrunning x] at hnext
    rw [hnext.eq_of_answer] at ha
    cases ha
    exact ⟨_, .reentrant rfl hrunning⟩
  | false =>
  obtain ⟨-, -, hidle⟩ := hrest.idle_of_not_running hrunning
  by_cases hs : (w.generator g).status = .running
  · obtain ⟨w₁, hthrow, -⟩ := throwInto_running fs hrunning hs hidle.slots.error hlt x
    rw [hthrow] at hnext hm₁
    exact absurd he ((reported_of_drive hm₁ hnext).not_turnsAway ha (by rw [hs]; nofun))
  · obtain ⟨w₁, hthrow, -⟩ := throwInto_not_running fs hrunning hs hlt x
    rw [hthrow] at hnext hm₁
    rw [eq_of_keeping hm₁ hnext (List.suffix_refl _)] at ha
    cases ha
    exact he.elim

/-- A close that a producer was resumed for is not turned away. -/
theorem not_turnsAway_of_closing {x : Generator C}
    (hm : Reachable P ⟨w, .task (.drive g), .closing g :: fs⟩)
    (h : Within P fs ⟨w, .task (.drive g), .closing g :: fs⟩ ⟨w', .answer a, fs⟩)
    (ha : a.error? = some e) : ¬ e.TurnsAway x := by
  obtain ⟨w₁, c, hbefore, hafter⟩ := Within.answers hm id (fun _ h => by cases h)
    (fun w u => by cases u <;> exact ⟨_, rfl⟩) h (List.suffix_refl _)
  have hm₁ := hm.leads hbefore.leads
  obtain ⟨κ', hclosing, -⟩ := hm.sound.order
  have hop : κ'.operand? = some g := by cases hclosing; rfl
  have hfinish : Within P fs (deliver w₁ c (.closing g :: fs)) _ := hafter.of_ne nofun
  cases reported_of_drive hm hbefore with
  | yields v =>
    have hm₂ : Reachable P (finishClose w₁ fs g (.ok (.yielded v))) := hm₁.move
    rw [eq_of_violating hm₂ hfinish (List.suffix_refl _)] at ha
    cases ha
  | exhausted name =>
    rw [hfinish.eq_of_answer] at ha
    cases ha
  | @ends w₂ r hend hrest =>
    cases r with
    | ok v =>
      rw [hfinish.eq_of_answer] at ha
      cases ha
    | error x' =>
      rw [hfinish.eq_of_answer] at ha
      split at ha
      · cases ha
      · cases ha
        exact id

theorem refused_of_close (hm : Reachable P ⟨w, .task (.close g), fs⟩)
    (h : Within P fs ⟨w, .task (.close g), fs⟩ ⟨w', .answer a, fs⟩) (ha : a.error? = some e)
    (he : e.TurnsAway (w.generator g)) : ∃ rs, Refused g (w.generator g) (.close g) e rs := by
  have hsound := hm.sound
  obtain ⟨κ, hκ, rfl⟩ := hsound.order
  have hlt : g < w.generators.size := hsound.lt_size_of_operand hκ rfl
  have hrest : Rest (Coroutine.marks fs) g (w.generator g) := hsound.rest rfl
  have hnext : Within P fs (close w fs g) _ := h.of_ne nofun
  have hm₁ : Reachable P (close w fs g) := hm.move
  cases hrunning : (w.generator g).running with
  | true =>
    rw [close_of_running fs hrunning] at hnext
    rw [hnext.eq_of_answer] at ha
    cases ha
    exact ⟨_, .reentrant rfl hrunning⟩
  | false =>
  obtain ⟨-, -, hidle⟩ := hrest.idle_of_not_running hrunning
  cases hs : (w.generator g).status with
  | unused =>
    obtain ⟨w₁, hclose, -⟩ := close_unused fs hrunning hs hlt
    rw [hclose] at hnext hm₁
    rw [eq_of_keeping hm₁ hnext (List.suffix_refl _)] at ha
    cases ha
  | running =>
    obtain ⟨w₁, hclose, -⟩ := close_running fs hrunning hs hidle.slots.error hlt
    rw [hclose] at hnext hm₁
    exact absurd he (not_turnsAway_of_closing hm₁ hnext ha)
  | finished =>
    obtain ⟨w₁, hclose, -⟩ := close_finished fs hrunning hs
    rw [hclose] at hnext
    rw [hnext.eq_of_answer] at ha
    cases ha

/-- An operation that comes back with such an error has been turned away. -/
theorem refused_of_asks (hrun : Run P (⟨w, .task t, fs⟩ :: ms)) (hmemory : maxStackSize ≤ w.stackMemory)
    (ht : t.asks? = some g) (h : Within P fs ⟨w, .task t, fs⟩ ⟨w', .answer a, fs⟩)
    (ha : a.error? = some e) (he : e.TurnsAway (w.generator g)) :
    ∃ rs, Refused g (w.generator g) t e rs := by
  cases t with
  | resume k sent => cases ht; exact refused_of_resume hrun hmemory h ha he
  | throw k x => cases ht; exact refused_of_throw hrun.reachable h ha he
  | close k => cases ht; exact refused_of_close hrun.reachable h ha he
  | _ => cases ht

/-! ### Steps -/

theorem Refused.of_handles {x : Generator C} {n : Nat} (h : Refused g { x with handles := n } t e rs) :
    Refused g x t e rs := by
  cases h with
  | reentrant ht hrun => exact .reentrant ht hrun
  | early v hrun hs => exact .early v hrun hs
  | stackless hrun hs hrange => exact .stackless hrun hs hrange
  | exhausted sent hrun hs => exact .exhausted sent hrun hs

/-- The handle that a caller holds meanwhile makes no difference. -/
theorem refused_retain (hlt : g < w.generators.size) :
    Refused g ((w.retain g).generator g) t e rs ↔ Refused g (w.generator g) t e rs := by
  rw [World.retain, World.generator_modify_self hlt]
  exact ⟨.of_handles, fun h => .of_handles (n := (w.generator g).handles) h⟩

theorem Refused.exception? {x : Generator C} (h : Refused g x t e rs) : e.exception? = none := by
  cases h <;> rfl

theorem Refused.asks? {x : Generator C} (h : Refused g x t e rs) : t.asks? = some g := by
  cases h with
  | reentrant ht => exact ht
  | _ => rfl

/-- The caller reports the error and drops the handle that it held. -/
theorem within_reporting (he : e.exception? = none) (ht : t.asks? = some g)
    (hpos : 0 < (w.generator g).handles) :
    Within P fs ⟨w.retain g, .answer (t.failure e), .reporting :: .holding g :: fs⟩
      ⟨w, .answer (.reply (.failed ⟨e, 0, []⟩)), fs⟩ := by
  have hreports : next P ⟨w.retain g, .answer (t.failure e), .reporting :: .holding g :: fs⟩ =
      ⟨w.retain g, .answer (.reply (.failed ⟨e, 0, []⟩)), .holding g :: fs⟩ := by
    cases t with
    | resume | throw | close =>
      simp [next, deliver, Task.failure, reportProgress, reportClosed, World.report, Ledger.report, he,
        reply, answer]
    | _ => cases ht
  have hdrops : dropHandle (w.retain g) (.keeping (.reply (.failed ⟨e, 0, []⟩)) :: fs) g =
      ⟨w, .answer .unit, .keeping (.reply (.failed ⟨e, 0, []⟩)) :: fs⟩ := by
    simp [dropHandle, World.release_retain, Nat.ne_of_gt hpos, answer]
  have hfirst : Within P (.holding g :: fs)
      ⟨w.retain g, .answer (t.failure e), .reporting :: .holding g :: fs⟩ _ :=
    .next_of_cons (List.suffix_refl _)
  refine hfirst.under.trans ?_
  rw [hreports]
  refine .trans (.next_of_cons (List.suffix_refl _)) ?_
  exact .of_task (List.suffix_cons _ fs) hdrops (.next_of_cons (List.suffix_refl _))

/-- So the step replies the error, and nothing but records has been made. -/
theorem Refused.within_step (h : Refused g (w.generator g) t e rs)
    (hpos : 0 < (w.generator g).handles) :
    Within P fs ⟨w.retain g, .task t, .reporting :: .holding g :: fs⟩
      ⟨w.recorded rs, .answer (.reply (.failed ⟨e, 0, []⟩)), fs⟩ := by
  have hretained := (refused_retain (w.lt_size_of_handles hpos)).mpr h
  exact (Within.under (Within.under (hretained.within _))).trans
    (within_reporting (w := w.recorded rs) h.exception? h.asks? hpos)

theorem exists_operation (hs : s.runs? = some name) (hfind : w.handles.find? name = some g)
    (fs : List (Frame C)) :
    ∃ t, t.asks? = some g ∧ next P ⟨w, .task (.step s), fs⟩ =
      ⟨(s.prepare w).retain g, .task t, .reporting :: .holding g :: fs⟩ := by
  cases s with
  | resume k sent =>
    cases hs
    exact ⟨.resume g sent, rfl, by simp [next, perform, makeStep, operate, hfind, task, Step.prepare]⟩
  | throw k x =>
    cases hs
    refine ⟨.throw g (w.make x).1, rfl, ?_⟩
    have hfind' : (w.make x).2.handles.find? name = some g := hfind
    simp [next, perform, makeStep, operate, hfind, hfind', task, Step.prepare]
  | close k =>
    cases hs
    exact ⟨.close g, rfl, by simp [next, perform, makeStep, operate, hfind, task, Step.prepare]⟩
  | _ => cases hs

theorem error_of_report (w : World C) (e : OpError) : (w.report e).1.error = e := by
  cases e <;> rfl

/-- What a step replies that fails is what its operation came back with. -/
theorem operation_of_failed {r : ErrorReport}
    (hm : Reachable P ⟨w, .task t, .reporting :: .holding g :: fs⟩)
    (h : Within P fs ⟨w, .task t, .reporting :: .holding g :: fs⟩
      ⟨w', .answer (.reply (.failed r)), fs⟩) :
    ∃ w₁ a, Within P (.reporting :: .holding g :: fs) ⟨w, .task t, .reporting :: .holding g :: fs⟩
      ⟨w₁, .answer a, .reporting :: .holding g :: fs⟩ ∧ a.error? = some r.error := by
  -- the step comes back through the frame that holds the handle,
  obtain ⟨m₁, hbefore, hafter, hback⟩ := h.back (f := .holding g) id (List.suffix_cons _ _) rfl
  have hm₁ := hm.leads hbefore.leads
  cases hback with
  | yields w₁ scopes captures _ => exact absurd rfl (not_yields hm₁ fun _ h => by cases h)
  | unwinds w₁ u =>
    have hleft : Within P fs ⟨w₁, .task (.dropHandle g), .unwinding u :: fs⟩ _ := hafter.of_ne nofun
    have hleaves : Reachable P ⟨w₁, .task (.dropHandle g), .unwinding u :: fs⟩ := hm₁.move
    obtain ⟨m₂, hbefore₂, hafter₂, hback₂⟩ :=
      hleft.back (f := .unwinding u) id (List.suffix_refl _) rfl
    cases hback₂ with
    | answers w₂ b =>
      have hgone : Within P fs ⟨w₂, .unwind u, fs⟩ _ := hafter₂.of_ne nofun
      exact absurd hgone not_within_of_unwind
    | unwinds w₂ u' =>
      have haborted : Within P fs ⟨w₂, .aborted, fs⟩ _ := hafter₂.of_ne nofun
      cases haborted.eq_of_aborted
    | yields w₂ scopes captures _ =>
      exact absurd rfl (not_yields (hleaves.leads hbefore₂.leads) fun _ h => by cases h)
  | answers w₁ c =>
    have hkept : Within P fs ⟨w₁, .task (.dropHandle g), .keeping c :: fs⟩ _ := hafter.of_ne nofun
    obtain rfl := eq_of_keeping (m := ⟨w₁, .task (.dropHandle g), .keeping c :: fs⟩) hm₁.move hkept
      (List.suffix_refl _)
    -- and before through the one that makes the report
    have hout (F : Fates) : ¬ Awaits F .outcome (.reporting :: .holding g :: fs) := by
      intro h
      cases h with
      | reporting hκ => rcases hκ with hκ | hκ <;> cases hκ
    obtain ⟨w₂, a, hop, hreport⟩ := Within.answers hm id hout
      (fun w u => by cases u <;> exact ⟨_, rfl⟩) hbefore (List.suffix_refl _)
    refine ⟨w₂, a, hop, ?_⟩
    have hreport : Within P (.holding g :: fs) (deliver w₂ a (.reporting :: .holding g :: fs)) _ :=
      hreport.of_ne nofun
    obtain ⟨κ, hκ, hfits, -⟩ := (hm.leads hop.leads).sound.order
    cases hκ with
    | reporting hκ =>
    rcases hκ with rfl | rfl
    · cases a with
      | progress x =>
        rcases x with e | ⟨v | v⟩
        · cases hreport.eq_of_answer
          exact congrArg some (error_of_report w₂ e).symm
        · cases hreport.eq_of_answer
        · cases hreport.eq_of_answer
      | _ => exact hfits.elim
    · cases a with
      | closed x =>
        rcases x with e | ⟨⟩
        · cases hreport.eq_of_answer
          exact congrArg some (error_of_report w₂ e).symm
        · cases hreport.eq_of_answer
      | _ => exact hfits.elim

/-- A step that replies such an error has changed nothing, but that the exception has been made. -/
theorem refused_of_failed {r : ErrorReport} (hrun : Run P (⟨w, .task (.step s), fs⟩ :: ms))
    (hmemory : maxStackSize ≤ w.stackMemory) (hs : s.runs? = some name)
    (hfind : w.handles.find? name = some g)
    (h : Within P fs ⟨w, .task (.step s), fs⟩ ⟨w', .answer (.reply (.failed r)), fs⟩)
    (he : r.error.TurnsAway (w.generator g)) :
    ∃ t rs, next P ⟨w, .task (.step s), fs⟩ =
        ⟨(s.prepare w).retain g, .task t, .reporting :: .holding g :: fs⟩ ∧
      Refused g (w.generator g) t r.error rs ∧ w' = (s.prepare w).recorded rs := by
  have hpos : 0 < ((s.prepare w).generator g).handles := by
    rw [Step.generator_prepare]
    exact hrun.reachable.sound.pos_of_handle hfind
  have hlt := (s.prepare w).lt_size_of_handles hpos
  obtain ⟨t, ht, hnext⟩ := exists_operation (P := P) hs hfind fs
  have hrun₁ := hrun.move
  have hop : Within P fs (next P ⟨w, .task (.step s), fs⟩) _ := h.of_ne nofun
  rw [hnext] at hrun₁ hop
  obtain ⟨w₁, a, hback, ha⟩ := operation_of_failed hrun₁.reachable hop
  have hstatus : (((s.prepare w).retain g).generator g).status = (w.generator g).status := by
    rw [World.retain, World.generator_modify_self hlt, Step.generator_prepare]
  obtain ⟨rs, hrefused⟩ :=
    refused_of_asks hrun₁ (s.memory_prepare w ▸ hmemory) ht hback ha (he.of_status hstatus)
  rw [refused_retain hlt] at hrefused
  refine ⟨t, rs, hnext, ?_, ((hrefused.within_step hpos).unique hop).1.symm⟩
  rw [Step.generator_prepare] at hrefused
  exact hrefused

/-! ### Views -/

theorem view_of_operation (hP : P.next c = .view v k)
    (hnext : next P ⟨w, .code c, fs⟩ = ⟨w', .task t, .viewing g k :: fs⟩) :
    t.asks? = some g ∧ w' = (v.prepare w).retain g ∧ 0 < (w.generator g).handles := by
  simp only [next, hP, grant] at hnext
  split at hnext
  · cases hnext
  · next hproducer =>
    simp only [useView] at hnext
    split at hnext
    · cases hnext
    · next hhandles =>
      cases v with
      | resume | throw | close =>
        cases hnext
        exact ⟨rfl, rfl, Nat.pos_of_ne_zero hhandles⟩
      | info => cases hnext
      | is name =>
        dsimp only at hnext
        split at hnext <;> cases hnext

theorem next_viewing (he : e.exception? = none) (ht : t.asks? = some g) :
    next P ⟨w, .answer (t.failure e), .viewing g k :: fs⟩ =
      ⟨w.note (.viewed (.failed ⟨e, 0, []⟩)), .task (.dropHandle g),
        .resuming (k (.failed ⟨e, 0, []⟩)) :: fs⟩ := by
  cases t with
  | resume | throw | close =>
    simp [next, deliver, Task.failure, reportProgress, reportClosed, World.report, Ledger.report, he,
      task]
  | _ => cases ht

/-- Nor has a view that is told such an error. -/
theorem refused_of_viewed {w₁ w₂ : World C} (hrun : Run P (⟨w, .code c, fs⟩ :: ms))
    (hmemory : maxStackSize ≤ w.stackMemory) (hP : P.next c = .view v k)
    (hnext : next P ⟨w, .code c, fs⟩ = ⟨w', .task t, .viewing g k :: fs⟩)
    (hback : Within P (.viewing g k :: fs) ⟨w', .task t, .viewing g k :: fs⟩
      ⟨w₁, .answer a, .viewing g k :: fs⟩)
    (ha : a.error? = some e) (he : e.TurnsAway (w.generator g))
    (hdrop : Within P (.resuming c' :: fs) (next P ⟨w₁, .answer a, .viewing g k :: fs⟩)
      ⟨w₂, .answer .unit, .resuming c' :: fs⟩) :
    c' = k (.failed ⟨e, 0, []⟩) ∧ ∃ rs, Refused g (w.generator g) t e rs ∧
      w₂ = ((v.prepare w).recorded rs).note (.viewed (.failed ⟨e, 0, []⟩)) := by
  obtain ⟨ht, rfl, hpos⟩ := view_of_operation hP hnext
  have hsame := v.generator_prepare w g
  have hlt : g < (v.prepare w).generators.size := World.lt_size_of_handles (hsame ▸ hpos)
  have hrun₁ := hrun.move
  rw [hnext] at hrun₁
  have hstatus : (((v.prepare w).retain g).generator g).status = (w.generator g).status := by
    rw [World.retain, World.generator_modify_self hlt, hsame]
  obtain ⟨rs, hrefused⟩ :=
    refused_of_asks hrun₁ (v.memory_prepare w ▸ hmemory) ht hback ha (he.of_status hstatus)
  obtain ⟨rfl, rfl⟩ := (hrefused.within _).unique hback
  rw [next_viewing hrefused.exception? ht] at hdrop
  obtain rfl : c' = k (.failed ⟨e, 0, []⟩) := by
    cases hdrop with
    | move hfs => exact Frame.resuming.inj (List.cons.inj (hfs.eq_of_length rfl)).1
  let noted := ((v.prepare w).recorded rs).note (.viewed (.failed ⟨e, 0, []⟩))
  have hdropped : dropHandle (noted.retain g) (.resuming (k (.failed ⟨e, 0, []⟩)) :: fs) g =
      ⟨noted, .answer .unit, .resuming (k (.failed ⟨e, 0, []⟩)) :: fs⟩ := by
    have hpos : (noted.generator g).handles ≠ 0 := Nat.ne_of_gt (hsame ▸ hpos)
    simp [dropHandle, World.release_retain, hpos, answer]
  have hpath : Within P (.resuming (k (.failed ⟨e, 0, []⟩)) :: fs)
      ⟨noted.retain g, .task (.dropHandle g), .resuming (k (.failed ⟨e, 0, []⟩)) :: fs⟩ _ :=
    .of_task (List.suffix_refl _) hdropped (.refl _)
  rw [refused_retain hlt, hsame] at hrefused
  exact ⟨rfl, rs, hrefused, (hpath.unique hdrop).1.symm⟩

end Machine

end Coroutine
