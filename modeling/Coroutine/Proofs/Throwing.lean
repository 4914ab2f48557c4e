import Coroutine.Proofs.Closing
import Coroutine.Proofs.Finalization
import Coroutine.Proofs.Identity
import Coroutine.Proofs.Recovery

/-! Exceptions that are thrown into a generator. Main statement: a suspended producer observes the very
exception at its yield point, and otherwise the exception comes back once the generator is finalized; it
is lost only if the producer has panicked. -/

namespace Coroutine

variable {C : Type}

namespace Machine

variable {P : Program C} {g : GeneratorId} {e : Exception} {w w' : World C} {fs : List (Frame C)}
  {m m₁ m' : Machine C} {b : Answer} {size : Nat} {k : Except Exception (Option Value) → C}
  {scopes : List (Scope C)} {captures : List (HeldGuard C)} {id : ExceptionId}

theorem producer_of_names (h : m.names id ≠ []) :
    ∃ g e fs, m.control = .answer (.outcome (.error e)) ∧ m.frames = .driving g :: fs ∧
      e.id = id := by
  unfold names at h
  split at h
  · next e g fs hcontrol hframes =>
    split at h
    · next hid => exact ⟨g, e, fs, hcontrol, hframes, hid.1⟩
    · exact absurd rfl h
  · exact absurd rfl h

/-- The exception `e` is raised where the producer of `g` is suspended, and what was begun in `m` on top
of `fs` comes back with what the producer does next. -/
structure Observed (P : Program C) (g : GeneratorId) (e : Exception)
    (k : Except Exception (Option Value) → C) (scopes : List (Scope C))
    (captures : List (HeldGuard C)) (fs : List (Frame C)) (m m₁ : Machine C) : Prop where
  raises : ∃ w, m₁ = ⟨w, .code (k (.error e)), stackFiber scopes captures (.driving g :: fs)⟩
  begins : Within P fs m m₁
  reports : ∀ w b, Within P fs m ⟨w, .answer b, fs⟩ → ∃ m₂ ρ, Within P (.driving g :: fs) m₁ m₂ ∧
    Reacts P g fs m₂ ρ ∧ Within P fs m₂ ⟨w, .answer b, fs⟩ ∧ b = .progress ρ.result
  returns : ∀ m₂ ρ, Within P (.driving g :: fs) m₁ m₂ → Reacts P g fs m₂ ρ → Settles P g m₂ →
    ∃ w, Within P fs m₂ ⟨w, .answer (.progress ρ.result), fs⟩

/-- What was begun in `m` on top of `fs` finalizes `g` without running its producer, and the exception
`e` comes back. -/
structure Returned (P : Program C) (g : GeneratorId) (e : Exception) (fs : List (Frame C))
    (m : Machine C) : Prop where
  outside : ∀ m', Within P fs m m' → .inside g ∉ Coroutine.marks m'.frames
  answers : ∀ w b, Within P fs m ⟨w, .answer b, fs⟩ →
    b = .progress (.error (.raised e)) ∧ (w.generator g).Spent
  /-- Nothing is added to its traceback, unless another producer ends with it meanwhile. -/
  traceback : ∀ w b, Within P fs m ⟨w, .answer b, fs⟩ →
    w.ledger.traceback e.id = m.world.ledger.traceback e.id ∨
      ∃ m' h e' below, Within P fs m m' ∧ m'.control = .answer (.outcome (.error e')) ∧
        m'.frames = .driving h :: below ∧ e'.id = e.id ∧ h ≠ g
  returns : Settles P g m → ∃ w, Within P fs m ⟨w, .answer (.progress (.error (.raised e))), fs⟩

/-- What becomes of an exception that is thrown into `g`: it is observed by the producer, or else it is
returned. -/
inductive Delivered (P : Program C) (g : GeneratorId) (e : Exception) (w : World C)
    (fs : List (Frame C)) : Prop
  | observed {size : Nat} {k : Except Exception (Option Value) → C} {scopes : List (Scope C)}
      {captures : List (HeldGuard C)} {m₁ : Machine C} :
      (w.generator g).fiber = some ⟨size, .suspended k scopes captures⟩ →
      Observed P g e k scopes captures fs ⟨w, .task (.throw g e), fs⟩ m₁ → Delivered P g e w fs
  | returned : ¬ (w.generator g).Parked → Returned P g e fs ⟨w, .task (.throw g e), fs⟩ →
      Delivered P g e w fs

/-- A producer that is suspended observes the exception. -/
theorem exists_observed (hm : Reachable P ⟨w, .task (.throw g e), fs⟩)
    (hf : (w.generator g).fiber = some ⟨size, .suspended k scopes captures⟩) :
    ∃ m₁, Observed P g e k scopes captures fs ⟨w, .task (.throw g e), fs⟩ m₁ := by
  obtain ⟨κ, hκ, rfl⟩ := hm.sound.order
  have hparked : (w.generator g).Parked := ⟨size, k, scopes, captures, hf⟩
  have hrest : Rest (Coroutine.marks fs) g (w.generator g) := hm.sound.rest rfl
  obtain ⟨hidle, hs⟩ := hrest.idle_of_parked hparked
  obtain ⟨w₁, hthrow, hb₁⟩ :=
    throwInto_running fs hidle.running hs hidle.slots.error (w.lt_size_of_parked hparked) e
  obtain ⟨w₂, hraised, -⟩ :=
    within_raised (P := P) fs (by rw [hb₁.self]; exact hf) (by rw [hb₁.self])
  have hbegun : Within P fs ⟨w, .task (.throw g e), fs⟩
      ⟨w₂, .code (k (.error e)), stackFiber scopes captures (.driving g :: fs)⟩ :=
    .of_task (List.suffix_refl fs) hthrow hraised
  have hm₁ := hm.leads hbegun.leads
  refine ⟨_, ⟨w₂, rfl⟩, hbegun, fun w b h => ?_, fun m₂ ρ hto hρ hsettles => ?_⟩
  · exact exists_reaction hm₁ (hbegun.before_answer h) (suffix_stackFiber ..)
  · obtain ⟨w', hback, -⟩ := within_of_reacts (hm₁.leads hto.leads) hρ hsettles
    exact ⟨w', hback⟩

/-- Without a producer to go on, the exception comes back. -/
theorem returned_of_status (hm : Reachable P ⟨w, .task (.throw g e), fs⟩)
    (hrun : (w.generator g).running = false) (hs : (w.generator g).status ≠ .running) :
    Returned P g e fs ⟨w, .task (.throw g e), fs⟩ := by
  obtain ⟨κ, hκ, rfl⟩ := hm.sound.order
  have hlt : g < w.generators.size := hm.sound.lt_size_of_operand hκ rfl
  have hrest : Rest (Coroutine.marks fs) g (w.generator g) := hm.sound.rest rfl
  obtain ⟨hout, -, hidle⟩ := hrest.idle_of_not_running hrun
  obtain ⟨w₁, hthrow, hb₁⟩ := throwInto_not_running fs hrun hs hlt e
  have hraise : Within P fs ⟨w, .task (.throw g e), fs⟩
      ⟨w₁, .task (.finalize g), .keeping (.progress (.error (.raised e))) :: fs⟩ :=
    .of_task (List.suffix_refl fs) hthrow (.refl _)
  have hm₁ := hm.leads hraise.leads
  have hlt₁ : g < w₁.generators.size := hb₁.size ▸ hlt
  have hfinished : (w₁.generator g).status = .finished := by rw [hb₁.self]
  have hfiber : (w.generator g).fiber = none := by
    cases h : (w.generator g).status with
    | unused => exact (hidle.unused h).1
    | running => exact absurd h hs
    | finished => exact (hidle.finished h).1.fiber
  have houtside : ∀ m', Within P fs ⟨w, .task (.throw g e), fs⟩ m' →
      .inside g ∉ Coroutine.marks m'.frames := by
    intro m' hto
    by_cases heq : ⟨w, .task (.throw g e), fs⟩ = m'
    · exact heq ▸ hout
    · have hlead : Leads P (throwInto w fs g e) m' := (hto.of_ne heq).leads
      rw [hthrow] at hlead
      exact not_inside_of_finished (hm₁.leads hlead).sound
        (status_of_leads hm₁ hlead hlt₁ hfinished)
  refine ⟨houtside, fun w' b h => ?_, fun w' b h => ?_, fun hsettles => ?_⟩
  · have h := hraise.before_answer h
    obtain ⟨hfinalized, hspent, -⟩ := finalized_of_keeping hm₁ hlt₁ h rfl
    cases hfinalized
    exact ⟨rfl, hspent⟩
  · by_cases hsilent : ∀ m', Within P fs ⟨w, .task (.throw g e), fs⟩ m' → m'.names e.id = []
    · exact .inl (by simpa using (escapes_of_within h hsilent).traceback hm)
    · push Not at hsilent
      obtain ⟨m', hto, hnames⟩ := hsilent
      obtain ⟨h, e', below, hcontrol, hframes, hid⟩ := producer_of_names hnames
      refine .inr ⟨m', h, e', below, hto, hcontrol, hframes, hid, ?_⟩
      rintro rfl
      exact houtside m' hto (by simp [hframes])
  · obtain ⟨w', hback, -⟩ := within_finalize hm₁ hκ rfl (.inl (by rw [hb₁.self]; exact hfiber))
      (hsettles.leads hraise.leads)
    exact ⟨w', hraise.trans hback⟩

/-- An exception that is thrown into a generator whose producer is not in control and has not panicked is
observed by the producer or comes back. -/
theorem delivered_of_reachable (hm : Reachable P ⟨w, .task (.throw g e), fs⟩)
    (hrun : (w.generator g).running = false) (hlive : ¬ (w.generator g).Dead) :
    Delivered P g e w fs := by
  have hrest : Rest (Coroutine.marks fs) g (w.generator g) := hm.sound.rest rfl
  obtain ⟨-, -, hidle⟩ := hrest.idle_of_not_running hrun
  by_cases hs : (w.generator g).status = .running
  · obtain ⟨-, ⟨⟨size, k, scopes, captures, hf⟩, -⟩ | ⟨hdead, -⟩⟩ := hidle.started hs
    · obtain ⟨m₁, hobserved⟩ := exists_observed hm hf
      exact .observed hf hobserved
    · exact absurd hdead hlive
  · exact .returned (hidle.not_parked hs) (returned_of_status hm hrun hs)

/-- A producer that yields for ever observes an exception that is thrown into it. -/
theorem delivered_of_endless : ∃ (w : World Unit) (e : Exception) (fs : List (Frame Unit)),
    Reachable endless ⟨w, .task (.throw 0 e), fs⟩ ∧ (w.generator 0).running = false ∧
      ¬ (w.generator 0).Dead ∧ (w.generator 0).Parked ∧ Delivered endless 0 e w fs := by
  have hcreate : Reachable endless
      ⟨{}, .task (.step (.create "g" ⟨"g", minStackSize, none, [], [], none, ()⟩)), []⟩ := .start _ _
  have hresume := (hcreate.leads (leads_run endless 2 _)).again (.resume "g" none)
    ⟨rfl, .inl ⟨_, rfl⟩⟩
  have hthrow := (hresume.leads (leads_run endless 20 _)).again (.throw "g" (.fresh (.value .unit)))
    ⟨rfl, .inl ⟨_, rfl⟩⟩
  have hthrown : Reachable endless ⟨_, .task (.throw 0 ⟨0, .value .unit⟩), [.reporting, .holding 0]⟩ :=
    hthrow.leads (leads_run endless 1 _)
  refine ⟨_, _, _, hthrown, rfl, ?live, ⟨_, _, _, _, rfl⟩,
    delivered_of_reachable hthrown rfl ?live⟩
  rintro ⟨_, h⟩
  cases h

/-- A generator whose producer has panicked loses the exception: it answers that it is exhausted. -/
theorem not_delivered_of_alarming : ∃ (w w' : World Unit) (e : Exception) (fs : List (Frame Unit)),
    Reachable alarming ⟨w, .task (.throw 0 e), fs⟩ ∧ (w.generator 0).running = false ∧
      Within alarming fs ⟨w, .task (.throw 0 e), fs⟩
        ⟨w', .answer (.progress (.error (.exhausted "g"))), fs⟩ ∧
      ¬ Delivered alarming 0 e w fs := by
  have hcreate : Reachable alarming
      ⟨{}, .task (.step (.create "g" ⟨"g", minStackSize, none, [], [], none, ()⟩)), []⟩ := .start _ _
  have hresume := (hcreate.leads (leads_run alarming 2 _)).again (.resume "g" none)
    ⟨rfl, .inl ⟨_, rfl⟩⟩
  have hthrow := (hresume.leads (leads_run alarming 20 _)).again (.throw "g" (.fresh (.value .unit)))
    ⟨rfl, .inr ⟨_, rfl⟩⟩
  have hthrown := hthrow.leads (leads_run alarming 1 _)
  obtain ⟨w, hm, hrun, ⟨size, hdead⟩, w', hback⟩ : ∃ w,
      Reachable alarming ⟨w, .task (.throw 0 ⟨0, .value .unit⟩), [.reporting, .holding 0]⟩ ∧
        (w.generator 0).running = false ∧ (w.generator 0).Dead ∧
        ∃ w', Within alarming [.reporting, .holding 0]
          ⟨w, .task (.throw 0 ⟨0, .value .unit⟩), [.reporting, .holding 0]⟩
          ⟨w', .answer (.progress (.error (.exhausted "g"))), [.reporting, .holding 0]⟩ := by
    refine ⟨_, hthrown, rfl, ⟨_, rfl⟩, ?_⟩
    apply Exists.intro
    iterate 3 refine .move (List.suffix_refl _) nofun ?_
    iterate 3 refine .move (List.suffix_cons _ _) nofun ?_
    exact .move (List.suffix_cons _ _) (fun _ _ => List.cons_ne_self _ _) (.refl _)
  refine ⟨w, w', _, _, hm, hrun, hback, ?_⟩
  rintro (⟨hf, -⟩ | ⟨-, hreturned⟩)
  · rw [hdead] at hf
    cases hf
  · obtain ⟨hraised, -⟩ := hreturned.answers _ _ hback
    cases hraised

end Machine

end Coroutine
