import Coroutine.Proofs.Booking
import Coroutine.Proofs.HandOff
import Coroutine.Proofs.Routine
import Mathlib.Tactic.IntervalCases

/-! Generators and coroutines. Main statement: in every reachable state a generator does what the
coroutine does that it amounts to, over every sequence of calls and for every producer. -/

namespace Coroutine.Machine

variable {C : Type} {P : Program C} {δ : GeneratorId → Prop} {w : World C} {fs : List (Frame C)}
  {g : GeneratorId}

/-- Frames wait for the end of operations on one generator only. -/
theorem operand_unique {F F' : Fates} {κ κ' : Awaited} {k : GeneratorId} (h : Awaits F κ fs)
    (h' : Awaits F' κ' fs) (hg : κ.operand? = some g) (hk : κ'.operand? = some k) : g = k := by
  cases h with
  | pulling | pullingNamed | closing | dropping =>
    cases h'
    cases hg
    cases hk
    rfl
  | viewing hκ =>
    cases h' with
    | viewing hκ' =>
      rcases hκ with rfl | rfl <;> rcases hκ' with rfl | rfl <;> cases hg <;> cases hk <;> rfl
  | reporting hκ =>
    cases h' with
    | reporting hκ' =>
      rcases hκ with rfl | rfl <;> rcases hκ' with rfl | rfl <;> cases hg <;> cases hk <;> rfl
  | _ => cases hg

theorem within_releaseEntry (hsettles : Settles P g ⟨w, .task (.releaseEntry g), fs⟩) :
    ∃ w', Within P fs ⟨w, .task (.releaseEntry g), fs⟩ ⟨w', .task (.releasePayload g), fs⟩ := by
  cases hentry : (w.generator g).entry with
  | none =>
    exact ⟨w, .of_task (List.suffix_refl fs) (releaseEntry_none fs hentry) (.refl _)⟩
  | some entry =>
    obtain ⟨w₁, hrelease, -⟩ := releaseEntry_some fs hentry
      (w.lt_size_of_ne Generator.entry (by rw [hentry]; nofun))
    have hrelease : Within P fs ⟨w, .task (.releaseEntry g), fs⟩
        ⟨w₁, .task (.release entry.captures), .emptying g :: fs⟩ :=
      .of_task (List.suffix_refl fs) hrelease (.refl _)
    obtain ⟨w', hreleased⟩ := hsettles.entry _ _ _ hrelease.leads
    exact ⟨w', hrelease.trans (hreleased.under.trans
      (.move (List.suffix_cons ..) (fun _ _ => List.cons_ne_self _ _) (.refl _)))⟩

/-- A generator without a stack that would have to be unwound is released. -/
theorem within_released (hfiber : (w.generator g).fiber = none ∨ (w.generator g).Dead)
    (hsettles : Settles P g ⟨w, .task (.finalize g), fs⟩) :
    ∃ w', Within P fs ⟨w, .task (.finalize g), fs⟩ ⟨w', .answer .unit, fs⟩ := by
  obtain ⟨w₁, hfinalize⟩ : ∃ w₁, finalize w fs g = task w₁ fs (.releaseEntry g) := by
    rcases hfiber with hf | hf
    · exact ⟨w, finalize_of_none _ hf⟩
    · obtain ⟨w₁, hfinalize, -⟩ := finalize_over fs hf (w.lt_size_of_dead hf)
      exact ⟨w₁, hfinalize⟩
  have hentry : Within P fs ⟨w, .task (.finalize g), fs⟩ ⟨w₁, .task (.releaseEntry g), fs⟩ :=
    .of_task (List.suffix_refl _) hfinalize (.refl _)
  obtain ⟨w₂, hpayload⟩ := within_releaseEntry (hsettles.leads hentry.leads)
  obtain ⟨w₃, hunit⟩ := hsettles.cleanup _ _ (hentry.trans hpayload).leads
  exact ⟨w₃, (hentry.trans hpayload).trans hunit⟩

/-- A generator that is finished without unwinding a stack is released, and the call on it comes
back. -/
theorem within_finalize {r : Except OpError (Progress Value Value)} {F : Fates} {κ : Awaited}
    (hm : Reachable P ⟨w, .task (.finalize g), .keeping (.progress r) :: fs⟩)
    (hκ : Awaits F κ fs) (hop : κ.operand? = some g)
    (hfiber : (w.generator g).fiber = none ∨ (w.generator g).Dead)
    (hsettles : Settles P g ⟨w, .task (.finalize g), .keeping (.progress r) :: fs⟩) :
    ∃ w', Within P fs ⟨w, .task (.finalize g), .keeping (.progress r) :: fs⟩
        ⟨w', .answer (.progress r), fs⟩ ∧
      (w'.generator g).routine? = some .finished := by
  obtain ⟨w₁, hwithin⟩ := within_released hfiber hsettles
  refine ⟨w₁, hwithin.under.trans
    (.move (List.suffix_cons ..) (fun _ _ => List.cons_ne_self _ _) (.refl _)), ?_⟩
  -- the answer is only kept for a generator that has ended
  obtain ⟨_, hkeeping, -⟩ := (hm.leads hwithin.leads).sound.order
  have hs : (w₁.generator g).status = .finished := by
    cases hkeeping with
    | @keeping _ κ' _ hfits _ _ hended hbelow =>
      have hoperand : ∃ k, κ'.operand? = some k := by
        cases κ' <;> first | exact hfits.elim | exact ⟨_, rfl⟩
      obtain ⟨k, hk⟩ := hoperand
      obtain rfl := operand_unique hκ hbelow hop hk
      exact (hended g hk).2.resolve_right nofun
  simp [Generator.routine?, hs]

/-- A producer that yields is suspended with its stack, and hands the value over to its caller. -/
theorem becomes_of_yield {c : C} {v : Value} {k : Except Exception (Option Value) → C}
    {scopes : List (Scope C)} {captures : List (HeldGuard C)}
    (h : Sound δ ⟨w, .code c, stackFiber scopes captures (.driving g :: fs)⟩)
    (hP : P.next c = .yield v k) :
    ∃ w₁ w₂ size, next P ⟨w, .code c, stackFiber scopes captures (.driving g :: fs)⟩ =
        ⟨w₁, .task (.suspended g), fs⟩ ∧
      next P ⟨w₁, .task (.suspended g), fs⟩ = ⟨w₂, .answer (.progress (.ok (.yielded v))), fs⟩ ∧
      w.Becomes g { w.generator g with
        value := none, running := false,
        fiber := some ⟨size, .suspended k scopes captures⟩ } w₂ := by
  have hrest : Rest (marks (stackFiber scopes captures (.driving g :: fs))) g (w.generator g) :=
    h.rest rfl
  obtain ⟨hinside, hslots⟩ := hrest.inside (by simp)
  have hlt : g < w.generators.size := w.lt_size_of_started hinside.started
  obtain ⟨w₁, size, hyield, hb₁⟩ :=
    yield_driving fs scopes captures v k hinside.entered hslots hlt
  obtain ⟨w₂, hsuspended, hb₂⟩ := suspended_running (w := w₁) (g := g) (v := v) fs
    (by rw [hb₁.self]; exact hinside.started.status) (by rw [hb₁.self]) (hb₁.size ▸ hlt)
  rw [hb₁.self] at hb₂
  refine ⟨w₁, w₂, size, ?_, hsuspended, hb₁.trans hb₂⟩
  simpa [next, hP, grant, task] using hyield

theorem next_of_yield {c : C} {v : Value} {k : Except Exception (Option Value) → C}
    {scopes : List (Scope C)} {captures : List (HeldGuard C)}
    (h : Sound δ ⟨w, .code c, stackFiber scopes captures (.driving g :: fs)⟩)
    (hP : P.next c = .yield v k) :
    ∃ w₁ w₂, next P ⟨w, .code c, stackFiber scopes captures (.driving g :: fs)⟩ =
        ⟨w₁, .task (.suspended g), fs⟩ ∧
      next P ⟨w₁, .task (.suspended g), fs⟩ = ⟨w₂, .answer (.progress (.ok (.yielded v))), fs⟩ ∧
      (w₂.generator g).routine? = some (.suspended k) := by
  have hrest : Rest (marks (stackFiber scopes captures (.driving g :: fs))) g (w.generator g) :=
    h.rest rfl
  obtain ⟨hinside, -⟩ := hrest.inside (by simp)
  obtain ⟨w₁, w₂, size, hyield, hsuspended, hb⟩ := becomes_of_yield h hP
  refine ⟨w₁, w₂, hyield, hsuspended, ?_⟩
  rw [hb.self]
  simp [Generator.routine?, hinside.started.status]

/-- A producer that is over is finalized, and its outcome is kept for its caller. -/
theorem next_of_end {r : Except Exception Value}
    (h : Sound δ ⟨w, .answer (.outcome r), .driving g :: fs⟩) :
    ∃ w₁ w₂, next P ⟨w, .answer (.outcome r), .driving g :: fs⟩ = ⟨w₁, .task (.terminated g), fs⟩ ∧
      next P ⟨w₁, .task (.terminated g), fs⟩ = ⟨w₂, .task (.finalize g),
        .keeping (.progress (Reaction.ends r : Reaction C).result) :: fs⟩ ∧
      (w₂.generator g).Dead := by
  have hrest : Rest (marks (.driving g :: fs)) g (w.generator g) := h.rest rfl
  obtain ⟨hinside, hslots⟩ := hrest.inside (by simp)
  obtain ⟨size, hf⟩ := hinside.entered
  have hlt : g < w.generators.size := w.lt_size_of_started hinside.started
  obtain ⟨w₁, hend, hb₁⟩ := endProducer_eq (r := r) fs hlt hslots.outcome
  obtain ⟨w₂, hterminated, hb₂⟩ := terminated_running (w := w₁) (g := g) fs
    (by rw [hb₁.self]; exact hinside.started.status) (hb₁.size ▸ hlt)
  have hresult : resultOf (w₁.generator g) = (Reaction.ends r : Reaction C).result := by
    rw [hb₁.self]
    cases r <;> rfl
  rw [hresult] at hterminated
  exact ⟨w₁, w₂, hend, hterminated, size, by rw [hb₂.self, hb₁.self, hf]; rfl⟩

/-- The code of a producer that has come to a reaction comes back to its caller with it. -/
theorem within_of_reacts {m : Machine C} {ρ : Reaction C} (hm : Reachable P m)
    (hρ : Reacts P g fs m ρ) (hsettles : Settles P g m) :
    ∃ w', Within P fs m ⟨w', .answer (.progress ρ.result), fs⟩ ∧
      (w'.generator g).routine? = some ρ.routine := by
  have hsound := hm.sound
  cases hρ with
  | @yields w c v k scopes captures hP =>
    obtain ⟨w₁, w₂, hyield, hsuspended, hroutine⟩ := next_of_yield hsound hP
    refine ⟨w₂, .move (suffix_under_stackFiber ..) nofun (hyield ▸ ?_), hroutine⟩
    exact .of_task (List.suffix_refl fs) hsuspended (.refl _)
  | @ends w r =>
    obtain ⟨w₁, w₂, hend, hterminated, hdead⟩ := next_of_end hsound
    have hover : Within P fs ⟨w, .answer (.outcome r), .driving g :: fs⟩
        ⟨w₂, .task (.finalize g),
          .keeping (.progress (Reaction.ends r : Reaction C).result) :: fs⟩ :=
      .move (List.suffix_cons ..) (fun _ _ => List.cons_ne_self _ _)
        (hend ▸ .of_task (List.suffix_refl fs) hterminated (.refl _))
    obtain ⟨κ, hκ, -⟩ := hsound.order
    cases hκ with
    | driving hbelow hop _ =>
      obtain ⟨w₃, hback, hs⟩ := within_finalize (hm.leads hover.leads) hbelow
        (by rcases hop with rfl | rfl <;> rfl) (.inr hdead) (hsettles.leads hover.leads)
      exact ⟨w₃, hover.trans hback, hs⟩

theorem idle_of_stands {call : Call} {s : Routine C}
    (hm : Reachable P ⟨w, .task (call.task g), fs⟩) (hs : w.Stands g s) :
    (w.generator g).Idle ∧ Awaits (w.fates (.task (call.task g))) (.progress g) fs := by
  have hphase : (Control.task (call.task g) : Control C).phase? g = none := by cases call <;> rfl
  obtain ⟨-, -, hidle⟩ := (hm.sound.rest hphase).idle_of_not_running hs.outside
  obtain ⟨κ, hκ, hfits⟩ := hm.sound.order
  obtain rfl : κ = .progress g := by cases call <;> exact hfits
  exact ⟨hidle, hκ⟩

/-- A call that runs code runs it on the stack of the producer, if one can be set up for a start. -/
theorem within_code {call : Call} {s : Routine C} {c : C}
    (hm : Reachable P ⟨w, .task (call.task g), fs⟩) (hstands : w.Stands g s)
    (hstack : (w.generator g).status = .unused →
      stackSizeInRange (w.generator g).stackSize = true ∧ (w.generator g).stackSize ≤ w.stackMemory)
    (hc : s.call (w.generator g).name call = .runs c) :
    ∃ w' scopes captures, Within P fs ⟨w, .task (call.task g), fs⟩
      ⟨w', .code c, stackFiber scopes captures (.driving g :: fs)⟩ := by
  obtain ⟨hidle, -⟩ := idle_of_stands hm hstands
  have hlt := hstands.present
  have hrun := hstands.outside
  cases s with
  | unused c' =>
    obtain ⟨hs, entry, hentry, rfl⟩ := Generator.unused_of_routine? hstands.routine
    rcases call with (_ | v) | e
    case resume.none =>
      cases hc
      obtain ⟨w₁, hresume, hb₁, hmemory⟩ := resume_unused fs hrun hs
      have hentry : (w₁.generator g).entry = some entry := by rw [hb₁.self]; exact hentry
      obtain ⟨w₂, hstart, hb₂⟩ := start_unused fs hentry (by rw [hb₁.self]; exact (hstack hs).1)
        (by rw [hb₁.self, hmemory]; exact (hstack hs).2) (hb₁.size ▸ hlt)
      obtain ⟨w₃, hdrive, -⟩ := drive_fresh (w := w₂) (g := g) fs (by rw [hb₂.self])
        (by rw [hb₂.self, hb₁.self]; exact (hidle.unused hs).2.2.1) (hb₂.size ▸ hb₁.size ▸ hlt)
      exact ⟨w₃, _, _, .of_task (List.suffix_refl fs) hresume
        (.of_task (List.suffix_refl fs) hstart (.of_task (List.suffix_refl fs) hdrive (.refl _)))⟩
    all_goals cases hc
  | suspended k =>
    obtain ⟨hs, size, scopes, captures, hf⟩ := Generator.suspended_of_routine? hstands.routine
    -- what is handed in goes through a slot, and the producer takes it from there
    cases call with
    | resume sent =>
      cases hc
      obtain ⟨w₁, hresume, hb₁⟩ := resume_running fs hrun hs hidle.slots.value hlt sent
      obtain ⟨w₂, hdrive, hb₂⟩ := drive_suspended (w := w₁) (g := g) fs
        (by rw [hb₁.self]; exact hf) (hb₁.size ▸ hlt)
      obtain ⟨w₃, hwake, -⟩ := wake_value (w := w₂) (g := g)
        (stackFiber scopes captures (.driving g :: fs)) k
        (by rw [hb₂.self, hb₁.self]; exact hidle.slots.error) (hb₂.size ▸ hb₁.size ▸ hlt)
      have hvalue : (w₂.generator g).value = sent := by rw [hb₂.self, hb₁.self]
      rw [hvalue] at hwake
      exact ⟨w₃, _, _, .of_task (List.suffix_refl fs) hresume
        (.of_task (List.suffix_refl fs) hdrive (.of_task (suffix_under_stackFiber ..) hwake (.refl _)))⟩
    | throw e =>
      cases hc
      obtain ⟨w₁, hthrow, hb₁⟩ := throwInto_running fs hrun hs hidle.slots.error hlt e
      obtain ⟨w₂, hdrive, hb₂⟩ := drive_suspended (w := w₁) (g := g) fs
        (by rw [hb₁.self]; exact hf) (hb₁.size ▸ hlt)
      obtain ⟨w₃, hwake, -⟩ := wake_error (w := w₂) (g := g) (e := e)
        (stackFiber scopes captures (.driving g :: fs)) k
        (by rw [hb₂.self, hb₁.self]) (hb₂.size ▸ hb₁.size ▸ hlt)
      exact ⟨w₃, _, _, .of_task (List.suffix_refl fs) hthrow
        (.of_task (List.suffix_refl fs) hdrive (.of_task (suffix_under_stackFiber ..) hwake (.refl _)))⟩
  | finished => cases call <;> cases hc

/-- An exception that is thrown into a generator whose producer is not suspended comes back. -/
theorem within_raise {e : Exception} {s : Routine C}
    (hm : Reachable P ⟨w, .task (Call.task g (.throw e)), fs⟩) (hstands : w.Stands g s)
    (hcallable : Callable P g ⟨w, .task (Call.task g (.throw e)), fs⟩)
    (hs : (w.generator g).status ≠ .running) :
    ∃ w', Within P fs ⟨w, .task (Call.task g (.throw e)), fs⟩
        ⟨w', .answer (.progress (.error (.raised e))), fs⟩ ∧
      (w'.generator g).routine? = some .finished := by
  obtain ⟨hidle, hκ⟩ := idle_of_stands hm hstands
  obtain ⟨w₁, hthrow, hb₁⟩ := throwInto_not_running fs hstands.outside hs hstands.present e
  have hraise : Within P fs ⟨w, .task (Call.task g (.throw e)), fs⟩
      ⟨w₁, .task (.finalize g), .keeping (.progress (.error (.raised e))) :: fs⟩ :=
    .of_task (List.suffix_refl fs) hthrow (.refl _)
  have hfiber : (w.generator g).fiber = none := by
    cases h : (w.generator g).status with
    | unused => exact (hidle.unused h).1
    | running => exact absurd h hs
    | finished => exact (hidle.finished h).1.fiber
  obtain ⟨w₂, hback, hfinished⟩ := within_finalize (hm.leads hraise.leads) hκ rfl
    (.inl (by rw [hb₁.self]; exact hfiber)) (hcallable.settles.leads hraise.leads)
  exact ⟨w₂, hraise.trans hback, hfinished⟩

/-- A call that runs no code comes back at once. -/
theorem within_answer {call : Call} {s s' : Routine C} {r : Except OpError (Progress Value Value)}
    (hm : Reachable P ⟨w, .task (call.task g), fs⟩) (hstands : w.Stands g s)
    (hcallable : Callable P g ⟨w, .task (call.task g), fs⟩)
    (hr : s.call (w.generator g).name call = .answers r s') :
    ∃ w', Within P fs ⟨w, .task (call.task g), fs⟩ ⟨w', .answer (.progress r), fs⟩ ∧
      (w'.generator g).routine? = some s' := by
  have hrun := hstands.outside
  cases s with
  | unused c =>
    obtain ⟨hs, -⟩ := Generator.unused_of_routine? hstands.routine
    rcases call with (_ | v) | e
    · cases hr
    · cases hr
      exact ⟨w, .of_task (List.suffix_refl fs) (resume_sent fs hrun hs v) (.refl _),
        hstands.routine⟩
    · cases hr
      exact within_raise hm hstands hcallable (by rw [hs]; nofun)
  | suspended k => cases call <;> cases hr
  | finished =>
    have hs := Generator.finished_of_routine? hstands.routine
    cases call with
    | resume sent =>
      cases hr
      obtain ⟨w', hresume, hb⟩ := resume_finished fs hrun hs sent
      refine ⟨w', .of_task (List.suffix_refl fs) hresume (.refl _), ?_⟩
      simp [Generator.routine?, hb.self, hs]
    | throw e =>
      cases hr
      exact within_raise hm hstands hcallable (by rw [hs]; nofun)

variable {m : Machine C}

theorem size_le_of_leads {m' : Machine C} (h : Leads P m m') :
    m.world.generators.size ≤ m'.world.generators.size := by
  induction h with
  | refl => exact Nat.le_refl _
  | move _ ih => exact Nat.le_trans (size_le_next _) ih

theorem outside_of_back {c c' : Control C} {w' : World C} (hm : Reachable P ⟨w, c, fs⟩)
    (hc : c.phase? g = none) (hrun : (w.generator g).running = false)
    (hback : Reachable P ⟨w', c', fs⟩) (hc' : c'.phase? g = none) :
    (w'.generator g).running = false := by
  have hbefore : Rest (marks fs) g (w.generator g) := hm.sound.rest hc
  have hafter : Rest (marks fs) g (w'.generator g) := hback.sound.rest hc'
  rw [Bool.eq_false_iff, Ne, hafter.running_iff, ← hbefore.running_iff, hrun]
  exact Bool.false_ne_true

/-- A new generator amounts to the coroutine whose code is its entry procedure. -/
theorem stands_of_makes {d : Definition C} (hmake : m.makes? P = some d) :
    (m.next P).world.Stands m.world.generators.size (.unused d.entry) where
  present := size_next_of_makes hmake ▸ Nat.lt_succ_self _
  outside := by
    rw [generator_next_of_makes hmake, World.generator_addGenerator_self]
    rfl
  routine := by
    rw [generator_next_of_makes hmake, World.generator_addGenerator_self]
    rfl

/-- Nothing but its payload and its handles changes as long as no operation is done on a generator
that control is outside of. -/
theorem bare_of_between {m' : Machine C} (hm : Reachable P m) (hg : g < m.world.generators.size)
    (hrun : (m.world.generator g).running = false) (h : Between P g m m') :
    g < m'.world.generators.size ∧
      (m'.world.generator g).bare = (m.world.generator g).bare := by
  induction h with
  | refl => exact ⟨hg, rfl⟩
  | @move m' hbetween hop ih =>
    obtain ⟨hlt, hsame⟩ := ih
    have hout : (m'.world.generator g).running = false :=
      (congrArg Generator.running hsame).trans hrun
    have hbare : ((m'.next P).world.generator g).bare = (m'.world.generator g).bare :=
      bare_next (hm.between hbetween).sound hlt hout hop
    exact ⟨Nat.lt_of_lt_of_le hlt (size_le_next m'), hbare.trans hsame⟩
  | again s _ _ ih => exact ih

/-- So it amounts to the same coroutine. -/
theorem stands_of_between {m' : Machine C} {s : Routine C} (hm : Reachable P m)
    (hs : m.world.Stands g s) (h : Between P g m m') : m'.world.Stands g s := by
  obtain ⟨hlt, hbare⟩ := bare_of_between hm hs.present hs.outside h
  constructor
  · exact hlt
  · exact (congrArg Generator.running hbare).trans hs.outside
  · exact (congrArg Generator.routine? hbare).trans hs.routine

/-- The calls that are made from a reachable state on are in lockstep with the coroutine. -/
theorem lockstep_of_reachable {s : Routine C} (hm : Reachable P m) (hs : m.world.Stands g s)
    (calls : List Call) : Lockstep P g calls s m := by
  induction calls generalizing s m with
  | nil => trivial
  | cons call calls ih =>
    intro w fs hbetween hcallable
    have hsite := hm.between hbetween
    have hstands : w.Stands g s := stands_of_between hm hs hbetween
    have hphase : (Control.task (call.task g) : Control C).phase? g = none := by cases call <;> rfl
    cases hcall : s.call (w.generator g).name call with
    | answers r s' =>
      obtain ⟨w', hback, hroutine⟩ := within_answer hsite hstands hcallable hcall
      have hend := hsite.leads hback.leads
      have hs' : w'.Stands g s' :=
        ⟨Nat.lt_of_lt_of_le hstands.present (size_le_of_leads hback.leads),
          outside_of_back hsite hphase hstands.outside hend rfl, hroutine⟩
      exact ⟨w', hback, fun _ _ h => (h.unique hback).2, hs', ih hend hs'⟩
    | runs c =>
      obtain ⟨w', scopes, captures, hcode⟩ := within_code hsite hstands
        (fun _ => ⟨hcallable.inRange, hcallable.memory⟩) hcall
      refine ⟨w', scopes, captures, hcode, fun m' ρ hruns hreacts => ?_⟩
      have hreaction := hcode.trans hruns
      obtain ⟨w'', hback, hroutine⟩ := within_of_reacts (hsite.leads hreaction.leads) hreacts
        (hcallable.settles.leads hreaction.leads)
      have hcalled := (hreaction.trans hback).leads
      have hend := hsite.leads hcalled
      have hs'' : w''.Stands g ρ.routine :=
        ⟨Nat.lt_of_lt_of_le hstands.present (size_le_of_leads hcalled),
          outside_of_back hsite hphase hstands.outside hend rfl, hroutine⟩
      exact ⟨w'', hback, fun _ _ h => (h.unique hback).2, hs'', ih hend hs''⟩

/-- From `m` on the generator `g` does what a coroutine does. -/
structure Refines (P : Program C) (g : GeneratorId) (m : Machine C) : Prop where
  /-- If it is made next, it amounts to the coroutine whose code is its entry procedure. -/
  created : ∀ d, m.makes? P = some d → m.world.generators.size = g →
    (m.next P).world.Stands g (.unused d.entry)
  /-- Calls do what the coroutine does with them that it amounts to. -/
  lockstep : ∀ s, m.world.Stands g s → ∀ calls, Lockstep P g calls s m

/-- In every reachable state generators do what coroutines do. -/
theorem refines_of_reachable (h : Reachable P m) (g : GeneratorId) : Refines P g m where
  created _ hmake hg := hg ▸ stands_of_makes hmake
  lockstep _ := lockstep_of_reachable h

/-- The first call on a generator that yields for ever runs its code. -/
theorem refines_of_endless : ∃ (m : Machine Unit) (w : World Unit) (fs : List (Frame Unit)),
    Refines endless 0 m ∧ m.world.Stands 0 (.unused ()) ∧
      Between endless 0 m ⟨w, .task (Call.task 0 (.resume none)), fs⟩ ∧
      Callable endless 0 ⟨w, .task (Call.task 0 (.resume none)), fs⟩ := by
  have hcreate : Reachable endless
      ⟨{ stackMemory := minStackSize },
        .task (.step (.create "g" ⟨"g", minStackSize, none, [], [], none, ()⟩)), []⟩ := .start _ _
  have hresume := (hcreate.leads (leads_run endless 2 _)).again (.resume "g" none)
    ⟨rfl, .inl ⟨_, rfl⟩⟩
  refine ⟨_, _, _, refines_of_reachable hresume 0, ⟨by decide, rfl, rfl⟩,
    .move .refl (fun t ht => by cases ht; nofun), rfl, by decide, ?_, ?_⟩
  · rintro w fs guards hlead
    obtain ⟨n, hn, hrun⟩ := hlead.exists_run 20 rfl
    interval_cases n <;> cases hrun
  · rintro w fs hlead
    obtain ⟨n, hn, hrun⟩ := hlead.exists_run 20 rfl
    interval_cases n <;> cases hrun

end Coroutine.Machine
