import Coroutine.Proofs.Change
import Coroutine.Proofs.Frames
import Coroutine.Proofs.Refinement

/-! What an operation comes back with. Main statement: an exception that an operation on a generator
raises is the one that the entry procedure ended with, or the one that was thrown if the operation
did not get control into the producer. -/

namespace Coroutine

variable {C : Type}

/-- The exception that the answer of an operation raises. -/
def Answer.raised? : Answer → Option Exception
  | .progress (.error (.raised e)) | .closed (.error (.raised e)) => some e
  | _ => none

/-- The generator that a caller asks the task of. -/
def Task.asks? : Task C → Option GeneratorId
  | resume g _ | throw g _ | close g => some g
  | _ => none

namespace Machine

variable {P : Program C} {δ : GeneratorId → Prop} {g : GeneratorId} {w w' : World C}
  {fs : List (Frame C)} {f : Frame C} {m m' : Machine C} {a b : Answer} {e : Exception}

theorem Within.of_ne (h : Within P fs m m') (hne : m ≠ m') : Within P fs (m.next P) m' := by
  cases h with
  | refl => exact absurd rfl hne
  | move _ _ h => exact h

theorem Within.eq_of_answer (h : Within P fs ⟨w, .answer a, fs⟩ ⟨w', .answer b, fs⟩) : b = a := by
  cases h.eq_answer
  rfl

theorem not_suffix_of_ne {f f' : Frame C} (hne : f ≠ f') : ¬ f :: fs <:+ f' :: fs := by
  intro h
  rcases List.suffix_cons_iff.mp h with heq | h
  · exact hne (List.cons.inj heq).1
  · exact absurd h.length_le (Nat.not_succ_le_self _)

theorem not_suffix_self : ¬ f :: fs <:+ fs :=
  fun h => absurd h.length_le (Nat.not_succ_le_self _)

/-- A frame that is left goes for good. -/
theorem not_suffix_leave (u : Unwinding) : ¬ f :: fs <:+ (leave w u (f :: fs)).frames := by
  cases f with
  | scope | closure | holding | viewing | dropping => exact not_suffix_of_ne nofun
  | destroying => cases u <;> exact not_suffix_self
  | dismantling | catching => cases u <;> exact not_suffix_self
  | calling catchesPanics => cases catchesPanics <;> cases u <;> exact not_suffix_self
  | cleaning todo last =>
    cases u with
    | cancel => exact not_suffix_self
    | panic p =>
      cases todo with
      | nil => cases last <;> exact not_suffix_self
      | cons s todo => exact not_suffix_of_ne (by simp)
  | onRelease name todo rest =>
    cases u with
    | cancel => exact not_suffix_self
    | panic p =>
      cases todo with
      | nil => exact not_suffix_self
      | cons s todo => exact not_suffix_of_ne (by simp)
  | owningHandles gs =>
    cases gs with
    | nil => cases u <;> exact not_suffix_self
    | cons g gs =>
      rw [leave, task, List.suffix_cons_iff, not_or]
      exact ⟨by simp, not_suffix_of_ne (by simp)⟩
  | owningFibers announced fibers =>
    cases fibers with
    | nil => cases u <;> exact not_suffix_self
    | cons fiber rest =>
      rw [leave, task, List.suffix_cons_iff, not_or]
      exact ⟨by simp, not_suffix_of_ne (by simp)⟩
  | pullingNamed | endingNamed =>
    rw [leave, nameIterator]
    split
    · rw [task, List.suffix_cons_iff, not_or]
      exact ⟨by simp, not_suffix_of_ne (by simp)⟩
    · exact not_suffix_of_ne (by simp)
  | switching =>
    rw [leave, nameFiber]
    split
    · exact not_suffix_of_ne (by simp)
    · rw [task, List.suffix_cons_iff, not_or]
      exact ⟨by simp, not_suffix_of_ne (by simp)⟩
  | _ => cases u <;> exact not_suffix_self

/-- What frames are left for does not have them any more. -/
theorem Within.eq_of_suffix {u : Unwinding} (h : Within P fs ⟨w, .unwind u, fs⟩ m')
    (hm' : fs <:+ m'.frames) : m' = ⟨w, .unwind u, fs⟩ := by
  cases fs with
  | nil =>
    generalize hm : (⟨w, .unwind u, []⟩ : Machine C) = m at h
    induction h with
    | refl => rfl
    | move _ _ _ ih =>
      subst hm
      exact ih hm' rfl
  | cons f fs =>
    cases h with
    | refl => rfl
    | move _ _ hrest =>
      have hnot : ¬ f :: fs <:+ (leave w u (f :: fs)).frames := not_suffix_leave u
      cases hrest with
      | refl => exact absurd hm' hnot
      | move hfs => exact absurd hfs hnot

/-- Frames are left once. -/
theorem Within.eq_of_unwind {u : Unwinding} (h : Within P fs ⟨w, .unwind u, fs⟩ m')
    (hm' : m'.frames = fs) : m' = ⟨w, .unwind u, fs⟩ :=
  h.eq_of_suffix (hm' ▸ List.suffix_refl _)

theorem Within.eq_of_aborted (h : Within P fs ⟨w, .aborted, fs⟩ m') : m' = ⟨w, .aborted, fs⟩ := by
  generalize hm : (⟨w, .aborted, fs⟩ : Machine C) = m at h
  induction h with
  | refl => rfl
  | move _ _ _ ih =>
    subst hm
    exact ih rfl

/-- What a panic leaves does not come back. -/
theorem not_within_of_unwind {u : Unwinding} :
    ¬ Within P fs ⟨w, .unwind u, fs⟩ ⟨w', .answer b, fs⟩ := by
  intro h
  cases h.eq_of_unwind rfl

/-- Only a fiber's part of the stack has the switch into it below. -/
theorem not_yields (h : Reachable P m) (hout : ∀ F : Fates, ¬ Awaits F .outcome (f :: fs))
    {c : C} {scopes : List (Scope C)} {captures : List (HeldGuard C)} :
    m ≠ ⟨w, .code c, stackFiber scopes captures (f :: fs)⟩ := by
  rintro rfl
  obtain ⟨κ, hκ, rfl⟩ := h.sound.order
  exact hout _ (Awaits.stackFiber_iff.mp hκ)

/-- An operation comes back through a frame that panics pop when there is an answer for it. -/
theorem Within.answers (hm : Reachable P m) (hf : ¬ f.IsPart)
    (hout : ∀ F : Fates, ¬ Awaits F .outcome (f :: fs))
    (hleave : ∀ w u, ∃ u', leave w u (f :: fs) = ⟨w, .unwind u', fs⟩)
    (h : Within P fs m ⟨w', .answer b, fs⟩) (hfs : f :: fs <:+ m.frames) :
    ∃ w₁ a, Within P (f :: fs) m ⟨w₁, .answer a, f :: fs⟩ ∧
      Within P fs ⟨w₁, .answer a, f :: fs⟩ ⟨w', .answer b, fs⟩ := by
  obtain ⟨m₁, hbefore, hafter, hback⟩ := h.back hf hfs rfl
  cases hback with
  | answers w₁ a => exact ⟨w₁, a, hbefore, hafter⟩
  | unwinds w₁ u =>
    have hafter : Within P fs (leave w₁ u (f :: fs)) _ := hafter.of_ne nofun
    obtain ⟨u', hu⟩ := hleave w₁ u
    rw [hu] at hafter
    exact absurd hafter not_within_of_unwind
  | yields w₁ scopes captures _ => exact absurd rfl (not_yields (hm.leads hbefore.leads) hout)

/-- An answer that is kept while something is released is what the operation comes back with. -/
theorem eq_of_keeping (hm : Reachable P m) (h : Within P fs m ⟨w', .answer b, fs⟩)
    (hkept : .keeping a :: fs <:+ m.frames) : b = a := by
  obtain ⟨w₁, c, -, hafter⟩ := Within.answers hm id (fun _ h => by cases h)
    (fun w u => by cases u <;> exact ⟨_, rfl⟩) h hkept
  have hafter : Within P fs ⟨w₁, .answer a, fs⟩ _ := hafter.of_ne nofun
  exact hafter.eq_of_answer

/-- What the run of a producer amounts to for its caller. -/
inductive Reported (P : Program C) (g : GeneratorId) (fs : List (Frame C)) (m m' : Machine C) :
    Answer → Prop
  | yields (v : Value) : Reported P g fs m m' (.progress (.ok (.yielded v)))
  /-- The producer had panicked. -/
  | exhausted (name : String) : Reported P g fs m m' (.progress (.error (.exhausted name)))
  | ends {w : World C} {r : Except Exception Value} :
      Within P fs m ⟨w, .answer (.outcome r), .driving g :: fs⟩ →
      Within P fs ⟨w, .answer (.outcome r), .driving g :: fs⟩ m' →
      Reported P g fs m m' (.progress (Reaction.ends r : Reaction C).result)

theorem Reported.of_within {m₀ : Machine C} (h : Reported P g fs m m' b)
    (hm : Within P fs m₀ m) : Reported P g fs m₀ m' b := by
  cases h with
  | yields v => exact .yields v
  | exhausted name => exact .exhausted name
  | ends hend hrest => exact .ends (hm.trans hend) hrest

/-- An operation that control is inside the producer for comes back with the reaction that the producer
comes to. -/
theorem exists_reaction (hm : Reachable P m) (h : Within P fs m ⟨w', .answer b, fs⟩)
    (hdriving : .driving g :: fs <:+ m.frames) :
    ∃ m₁ ρ, Within P (.driving g :: fs) m m₁ ∧ Reacts P g fs m₁ ρ ∧
      Within P fs m₁ ⟨w', .answer b, fs⟩ ∧ b = .progress ρ.result := by
  obtain ⟨m₁, hbefore, hafter, hback⟩ := h.back id hdriving rfl
  have hsound := (hm.leads hbefore.leads).sound
  cases hback with
  | answers w₁ c =>
    obtain ⟨κ', hκ', hfits⟩ := hsound.order
    cases hκ' with
    | driving =>
      cases c with
      | outcome r =>
        obtain ⟨w₂, w₃, hend, hterminated, -⟩ := next_of_end (P := P) hsound
        have hkept := hafter.of_ne nofun
        rw [hend] at hkept
        have hkept := hkept.of_ne nofun
        rw [hterminated] at hkept
        have hlead : Leads P _ _ := .step hend (.single _)
        rw [hterminated] at hlead
        have heq := eq_of_keeping ((hm.leads hbefore.leads).leads hlead) hkept
          (List.suffix_refl _)
        exact ⟨_, _, hbefore, .ends, hafter, heq⟩
      | _ => exact hfits.1.elim
  | unwinds w₁ u =>
    have hafter : Within P fs (leave w₁ u (.driving g :: fs)) _ := hafter.of_ne nofun
    exact absurd hafter (by cases u <;> exact not_within_of_unwind)
  | yields w₁ scopes captures hP =>
    obtain ⟨w₂, w₃, hyield, hsuspended, -⟩ := next_of_yield hsound hP
    have hback := hafter.of_ne nofun
    rw [hyield] at hback
    have hback := hback.of_ne nofun
    rw [hsuspended] at hback
    exact ⟨_, _, hbefore, .yields hP, hafter, hback.eq_of_answer⟩

theorem reported_of_driving (hm : Reachable P m) (h : Within P fs m ⟨w', .answer b, fs⟩)
    (hdriving : .driving g :: fs <:+ m.frames) :
    Reported P g fs m ⟨w', .answer b, fs⟩ b := by
  obtain ⟨m₁, ρ, hbefore, hreacts, hafter, rfl⟩ := exists_reaction hm h hdriving
  cases hreacts with
  | yields => exact .yields _
  | ends => exact .ends hbefore.under hafter

theorem reported_of_drive (hm : Reachable P ⟨w, .task (.drive g), fs⟩)
    (h : Within P fs ⟨w, .task (.drive g), fs⟩ ⟨w', .answer b, fs⟩) :
    Reported P g fs ⟨w, .task (.drive g), fs⟩ ⟨w', .answer b, fs⟩ b := by
  have hat : At _ (Coroutine.marks fs) g (w.generator g) := hm.sound.shape g
  obtain ⟨-, -, hstarted, -, hhanded, hfiber⟩ := hat.phase rfl (by decide)
  have hlt : g < w.generators.size := w.lt_size_of_started hstarted
  have hnext := h.of_ne nofun
  have hlead : Leads P ⟨w, .task (.drive g), fs⟩ _ := .single _
  have hfirst : Within P fs ⟨w, .task (.drive g), fs⟩ _ := .of_task (List.suffix_refl fs) rfl (.refl _)
  rcases hfiber with ⟨⟨size, entry, hf⟩, -⟩ | ⟨⟨size, k, scopes, captures, hf⟩, -⟩ |
    ⟨⟨size, hf⟩, -⟩
  · obtain ⟨w₁, hdrive, -⟩ := drive_fresh fs hf hstarted.payload hlt
    refine .of_within (reported_of_driving (hm.leads hlead) hnext ?_) hfirst
    show _ <:+ (drive w fs g).frames
    rw [hdrive]
    exact suffix_stackFiber ..
  · obtain ⟨w₁, hdrive, -⟩ := drive_suspended fs hf hlt
    refine .of_within (reported_of_driving (hm.leads hlead) hnext ?_) hfirst
    show _ <:+ (drive w fs g).frames
    rw [hdrive]
    exact suffix_stackFiber ..
  · -- nothing runs, and there is no outcome
    obtain ⟨w₁, hdrive, hb₁⟩ := drive_over fs hf
    obtain ⟨w₂, hterminated, -⟩ := terminated_running (w := w₁) (g := g) fs
      (by rw [hb₁.self]; exact hstarted.status) (hb₁.size ▸ hlt)
    have hresult : resultOf (w₁.generator g) = .error (.exhausted (w.generator g).name) := by
      rw [hb₁.self, resultOf_of_none hhanded.outcome]
    rw [hresult] at hterminated
    have hdrive : next P ⟨w, .task (.drive g), fs⟩ = ⟨w₁, .task (.terminated g), fs⟩ := hdrive
    have hterminated : next P ⟨w₁, .task (.terminated g), fs⟩ = ⟨w₂, .task (.finalize g),
      .keeping (.progress (.error (.exhausted (w.generator g).name))) :: fs⟩ := hterminated
    rw [hdrive] at hnext
    have hkept := hnext.of_ne nofun
    have hlead : Leads P ⟨w, .task (.drive g), fs⟩ _ := .step hdrive (.single _)
    rw [hterminated] at hkept hlead
    rw [eq_of_keeping (hm.leads hlead) hkept (List.suffix_refl _)]
    exact .exhausted _

/-- A start for which there is no memory comes back with the failure. -/
theorem answered_of_catching (hm : Reachable P m) (h : Within P fs m m') (hm' : m'.frames = fs)
    (hcatching : .catching a :: fs <:+ m.frames) : ∃ w, m' = ⟨w, .answer a, fs⟩ := by
  obtain ⟨m₁, hbefore, hafter, hback⟩ := h.back id hcatching hm'
  have hsound := (hm.leads hbefore.leads).sound
  obtain ⟨κ', hκ', hfits⟩ := hsound.order
  cases hback with
  | answers w₁ c =>
    cases hκ' with
    | catching => cases c <;> exact hfits.1.elim
  | unwinds w₁ u =>
    cases hκ' with
    | catching =>
      cases u with
      | panic p =>
        have hafter : Within P fs ⟨w₁, .answer a, fs⟩ m' := hafter.of_ne (by rintro rfl; cases hm')
        exact ⟨w₁, hafter.eq_answer⟩
      | cancel => cases hfits
  | yields w₁ scopes captures _ =>
    obtain rfl : κ' = .code := hfits
    cases Awaits.stackFiber_iff.mp hκ'

theorem eq_of_catching (hm : Reachable P m) (h : Within P fs m ⟨w', .answer b, fs⟩)
    (hcatching : .catching a :: fs <:+ m.frames) : b = a := by
  obtain ⟨w, heq⟩ := answered_of_catching hm h rfl hcatching
  cases heq
  rfl

/-- A close that the producer ignored raises no exception. -/
theorem eq_of_violating (hm : Reachable P m) (h : Within P fs m ⟨w', .answer b, fs⟩)
    (hviolating : .violating g :: fs <:+ m.frames) : b = .closed (.ok ()) := by
  obtain ⟨w₁, c, -, hafter⟩ := Within.answers hm id (fun _ h => by cases h)
    (fun w u => by cases u <;> exact ⟨_, rfl⟩) h hviolating
  have hafter : Within P fs (deliver w₁ c (.violating g :: fs)) _ := hafter.of_ne nofun
  simp only [deliver] at hafter
  split at hafter
  · exact hafter.eq_of_answer
  · exact absurd hafter (not_within_of_unwind)

/-- Where the exception comes from that an operation on `g` raises, which was begun in `m` on top of
`fs` and came back in `m'`. -/
inductive Origin (P : Program C) (g : GeneratorId) (e : Exception) (fs : List (Frame C))
    (m m' : Machine C) : Prop
  /-- The entry procedure ended with it, when control was in the producer for this operation. -/
  | ended {w : World C} {fs' : List (Frame C)} : fs' = fs ∨ fs' = .closing g :: fs →
      Within P fs m ⟨w, .answer (.outcome (.error e)), .driving g :: fs'⟩ →
      Within P fs ⟨w, .answer (.outcome (.error e)), .driving g :: fs'⟩ m' → Origin P g e fs m m'
  /-- It was thrown, and control was not in the producer. -/
  | thrown : m.control = .task (.throw g e) →
      (∀ m₁, Within P fs m m₁ → .inside g ∉ Coroutine.marks m₁.frames) → Origin P g e fs m m'

theorem Reported.origin {m₀ : Machine C} (h : Reported P g fs m m' b) (hb : b.raised? = some e)
    (hm : Within P fs m₀ m) : Origin P g e fs m₀ m' := by
  cases h with
  | yields | exhausted => cases hb
  | @ends w r hend hrest =>
    cases r with
    | ok => cases hb
    | error e' =>
      cases hb
      exact .ended (.inl rfl) (hm.trans hend) hrest

/-- A resume comes back with a failure of its own, or with what the run of the producer amounts to. -/
theorem answer_of_resume {sent : Option Value} (hm : Reachable P ⟨w, .task (.resume g sent), fs⟩)
    (h : Within P fs ⟨w, .task (.resume g sent), fs⟩ ⟨w', .answer b, fs⟩) :
    (∃ e, b = .progress (.error e) ∧ b.raised? = none) ∨
      Reported P g fs ⟨w, .task (.resume g sent), fs⟩ ⟨w', .answer b, fs⟩ b := by
  have hsound := hm.sound
  obtain ⟨κ, hκ, rfl⟩ := hsound.order
  have hlt : g < w.generators.size := hsound.lt_size_of_operand hκ rfl
  have hrest : Rest (Coroutine.marks fs) g (w.generator g) := hsound.rest rfl
  have hnext : Within P fs (resume w fs g sent) _ := h.of_ne nofun
  cases hrun : (w.generator g).running with
  | true =>
    rw [resume_of_running fs hrun sent] at hnext
    exact .inl ⟨_, hnext.eq_of_answer, by rw [hnext.eq_of_answer]; rfl⟩
  | false =>
  obtain ⟨-, -, hidle⟩ := hrest.idle_of_not_running hrun
  cases hs : (w.generator g).status with
  | unused =>
    cases sent with
    | some v =>
      rw [resume_sent fs hrun hs v] at hnext
      exact .inl ⟨_, hnext.eq_of_answer, by rw [hnext.eq_of_answer]; rfl⟩
    | none =>
      obtain ⟨w₁, hresume, hb₁, -⟩ := resume_unused fs hrun hs
      have hresume : next P ⟨w, .task (.resume g none), fs⟩ = ⟨w₁, .task (.start g), fs⟩ := hresume
      have hnext := h.of_ne nofun
      rw [hresume] at hnext
      have hm₁ : Reachable P ⟨w₁, .task (.start g), fs⟩ := hresume ▸ hm.move
      have hstart : Within P fs (start w₁ fs g) _ := hnext.of_ne nofun
      have hlt : g < w₁.generators.size := hb₁.size ▸ hlt
      have hbegun : Within P fs ⟨w, .task (.resume g none), fs⟩ (start w₁ fs g) :=
        .of_task (List.suffix_refl fs) hresume (.of_task (List.suffix_refl fs) rfl (.refl _))
      by_cases hfailed : stackSizeInRange (w₁.generator g).stackSize = false ∨
          (w₁.generator g).entry = none
      · rw [start_failed fs hfailed] at hstart
        exact .inl ⟨_, hstart.eq_of_answer, by rw [hstart.eq_of_answer]; rfl⟩
      obtain ⟨hrange, hentry⟩ := not_or.mp hfailed
      obtain ⟨entry, hentry⟩ := Option.ne_none_iff_exists'.mp hentry
      have hrange := Bool.eq_true_of_not_eq_false hrange
      by_cases hmemory : w₁.stackMemory < (w₁.generator g).stackSize
      · obtain ⟨w₂, hrelease, -⟩ := start_outOfMemory fs hentry hrange hmemory hlt
        rw [hrelease] at hstart
        have hm₂ : Reachable P (start w₁ fs g) := hm₁.move
        rw [hrelease] at hm₂
        have heq := eq_of_catching hm₂ hstart (List.suffix_cons _ _)
        exact .inl ⟨_, heq, by rw [heq]; rfl⟩
      · obtain ⟨w₂, hdrive, -⟩ := start_unused fs hentry hrange (Nat.le_of_not_lt hmemory) hlt
        have hm₂ : Reachable P (start w₁ fs g) := hm₁.move
        rw [hdrive] at hstart hm₂ hbegun
        exact .inr ((reported_of_drive hm₂ hstart).of_within hbegun)
  | running =>
    obtain ⟨w₁, hresume, -⟩ := resume_running fs hrun hs hidle.slots.value hlt sent
    have hm₁ : Reachable P (resume w fs g sent) := hm.move
    have hbegun : Within P fs ⟨w, .task (.resume g sent), fs⟩ (resume w fs g sent) :=
      .of_task (List.suffix_refl fs) rfl (.refl _)
    rw [hresume] at hnext hm₁ hbegun
    exact .inr ((reported_of_drive hm₁ hnext).of_within hbegun)
  | finished =>
    obtain ⟨w₁, hresume, -⟩ := resume_finished fs hrun hs sent
    rw [hresume] at hnext
    exact .inl ⟨_, hnext.eq_of_answer, by rw [hnext.eq_of_answer]; rfl⟩

theorem progress_of_resume {sent : Option Value} (hm : Reachable P ⟨w, .task (.resume g sent), fs⟩)
    (h : Within P fs ⟨w, .task (.resume g sent), fs⟩ ⟨w', .answer b, fs⟩) : ∃ r, b = .progress r := by
  rcases answer_of_resume hm h with ⟨e, rfl, -⟩ | hreported
  · exact ⟨_, rfl⟩
  · cases hreported <;> exact ⟨_, rfl⟩

theorem origin_of_resume {sent : Option Value} (hm : Reachable P ⟨w, .task (.resume g sent), fs⟩)
    (h : Within P fs ⟨w, .task (.resume g sent), fs⟩ ⟨w', .answer b, fs⟩)
    (hb : b.raised? = some e) :
    Origin P g e fs ⟨w, .task (.resume g sent), fs⟩ ⟨w', .answer b, fs⟩ := by
  rcases answer_of_resume hm h with ⟨-, -, hnone⟩ | hreported
  · cases hnone.symm.trans hb
  · exact hreported.origin hb (.refl _)

theorem origin_of_throw {e' : Exception} (hm : Reachable P ⟨w, .task (.throw g e'), fs⟩)
    (h : Within P fs ⟨w, .task (.throw g e'), fs⟩ ⟨w', .answer b, fs⟩)
    (hb : b.raised? = some e) :
    Origin P g e fs ⟨w, .task (.throw g e'), fs⟩ ⟨w', .answer b, fs⟩ := by
  have hsound := hm.sound
  obtain ⟨κ, hκ, rfl⟩ := hsound.order
  have hlt : g < w.generators.size := hsound.lt_size_of_operand hκ rfl
  have hrest : Rest (Coroutine.marks fs) g (w.generator g) := hsound.rest rfl
  have hnext : Within P fs (throwInto w fs g e') _ := h.of_ne nofun
  have hm₁ : Reachable P (throwInto w fs g e') := hm.move
  have hbegun : Within P fs ⟨w, .task (.throw g e'), fs⟩ (throwInto w fs g e') :=
    .of_task (List.suffix_refl fs) rfl (.refl _)
  cases hrun : (w.generator g).running with
  | true =>
    rw [throwInto_of_running fs hrun e'] at hnext
    rw [hnext.eq_of_answer] at hb
    cases hb
  | false =>
  obtain ⟨hout, -, hidle⟩ := hrest.idle_of_not_running hrun
  by_cases hs : (w.generator g).status = .running
  · obtain ⟨w₁, hthrow, -⟩ := throwInto_running fs hrun hs hidle.slots.error hlt e'
    rw [hthrow] at hnext hm₁ hbegun
    exact (reported_of_drive hm₁ hnext).origin hb hbegun
  · obtain ⟨w₁, hthrow, hb₁⟩ := throwInto_not_running fs hrun hs hlt e'
    rw [hthrow] at hnext hm₁
    rw [eq_of_keeping hm₁ hnext (List.suffix_refl _)] at hb
    cases hb
    refine .thrown rfl fun m₁ hwithin => ?_
    by_cases heq : ⟨w, .task (.throw g e), fs⟩ = m₁
    · subst heq
      exact hout
    · have hlead : Leads P (throwInto w fs g e) m₁ := (hwithin.of_ne heq).leads
      rw [hthrow] at hlead
      have hfinished := status_of_leads hm₁ hlead (hb₁.size ▸ hlt)
        (show (w₁.generator g).status = .finished by rw [hb₁.self])
      exact not_inside_of_finished (hm₁.leads hlead).sound hfinished

theorem origin_of_closing {m₀ : Machine C}
    (hm : Reachable P ⟨w, .task (.drive g), .closing g :: fs⟩)
    (h : Within P fs ⟨w, .task (.drive g), .closing g :: fs⟩ ⟨w', .answer b, fs⟩)
    (hb : b.raised? = some e)
    (hbegun : Within P fs m₀ ⟨w, .task (.drive g), .closing g :: fs⟩) :
    Origin P g e fs m₀ ⟨w', .answer b, fs⟩ := by
  obtain ⟨w₁, c, hbefore, hafter⟩ := Within.answers hm id (fun _ h => by cases h)
    (fun w u => by cases u <;> exact ⟨_, rfl⟩) h (List.suffix_refl _)
  have hm₁ := hm.leads hbefore.leads
  obtain ⟨κ', hclosing, hfits, -⟩ := hm₁.sound.order
  cases hclosing with
  | closing hbelow =>
  cases c with
  | progress r =>
    have hfinish : Within P fs (finishClose w₁ fs g r) _ := hafter.of_ne nofun
    obtain ⟨κ', hclosing, -⟩ := hm.sound.order
    have hop : κ'.operand? = some g := by cases hclosing; rfl
    cases reported_of_drive hm hbefore with
    | yields v =>
      have hm₂ : Reachable P (finishClose w₁ fs g (.ok (.yielded v))) := hm₁.move
      rw [eq_of_violating hm₂ hfinish (List.suffix_refl _)] at hb
      cases hb
    | exhausted name =>
      rw [hfinish.eq_of_answer] at hb
      cases hb
    | @ends w₂ r' hend hrest =>
      cases r' with
      | ok v =>
        rw [hfinish.eq_of_answer] at hb
        cases hb
      | error e' =>
        -- an exit that comes back to the close is not raised
        rw [hfinish.eq_of_answer] at hb
        split at hb
        · cases hb
        · cases hb
          exact .ended (.inr rfl) (hbegun.trans hend.under) (hrest.under.trans hafter)
  | _ => exact hfits.elim

theorem origin_of_close (hm : Reachable P ⟨w, .task (.close g), fs⟩)
    (h : Within P fs ⟨w, .task (.close g), fs⟩ ⟨w', .answer b, fs⟩)
    (hb : b.raised? = some e) :
    Origin P g e fs ⟨w, .task (.close g), fs⟩ ⟨w', .answer b, fs⟩ := by
  have hsound := hm.sound
  obtain ⟨κ, hκ, rfl⟩ := hsound.order
  have hlt : g < w.generators.size := hsound.lt_size_of_operand hκ rfl
  have hrest : Rest (Coroutine.marks fs) g (w.generator g) := hsound.rest rfl
  have hnext : Within P fs (close w fs g) _ := h.of_ne nofun
  have hm₁ : Reachable P (close w fs g) := hm.move
  have hbegun : Within P fs ⟨w, .task (.close g), fs⟩ (close w fs g) :=
    .of_task (List.suffix_refl fs) rfl (.refl _)
  cases hrun : (w.generator g).running with
  | true =>
    rw [close_of_running fs hrun] at hnext
    rw [hnext.eq_of_answer] at hb
    cases hb
  | false =>
  obtain ⟨-, -, hidle⟩ := hrest.idle_of_not_running hrun
  cases hs : (w.generator g).status with
  | unused =>
    obtain ⟨w₁, hclose, -⟩ := close_unused fs hrun hs hlt
    rw [hclose] at hnext hm₁
    rw [eq_of_keeping hm₁ hnext (List.suffix_refl _)] at hb
    cases hb
  | running =>
    obtain ⟨w₁, hclose, -⟩ := close_running fs hrun hs hidle.slots.error hlt
    rw [hclose] at hnext hm₁ hbegun
    exact origin_of_closing hm₁ hnext hb hbegun
  | finished =>
    obtain ⟨w₁, hclose, -⟩ := close_finished fs hrun hs
    rw [hclose] at hnext
    rw [hnext.eq_of_answer] at hb
    cases hb

/-- An operation that raises an exception raises the one that its producer ended with, or the one
that was thrown. -/
theorem origin_of_asks {t : Task C} (hm : Reachable P ⟨w, .task t, fs⟩) (ht : t.asks? = some g)
    (h : Within P fs ⟨w, .task t, fs⟩ ⟨w', .answer b, fs⟩) (hb : b.raised? = some e) :
    Origin P g e fs ⟨w, .task t, fs⟩ ⟨w', .answer b, fs⟩ := by
  cases t with
  | resume k sent => cases ht; exact origin_of_resume hm h hb
  | throw k e' => cases ht; exact origin_of_throw hm h hb
  | close k => cases ht; exact origin_of_close hm h hb
  | _ => cases ht

end Machine

end Coroutine
