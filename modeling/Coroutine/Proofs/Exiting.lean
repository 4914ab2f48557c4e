import Coroutine.Proofs.Closing

/-! Producers that are not resumed any more. Main statement: once the exit signal has got into the
producer of a generator that is closed, control is never switched into the producer again. -/

namespace Coroutine

variable {C : Type}

namespace Machine

variable {P : Program C} {δ : GeneratorId → Prop} {g : GeneratorId} {w w' : World C}
  {fs : List (Frame C)} {m m' : Machine C} {size : Nat} {k : Except Exception (Option Value) → C}
  {scopes : List (Scope C)} {captures : List (HeldGuard C)}

/-- Control is about to be switched into the suspended producer of `g`. -/
structure Resumes (g : GeneratorId) (m : Machine C) : Prop where
  control : m.control = .task (.drive g)
  parked : (m.world.generator g).Parked

/-- The producer of `g`, which was closed on top of `fs`, is not resumed any more: it has come back with
a yield, or its fiber is over, or `g` has ended. -/
inductive Exited (g : GeneratorId) (fs : List (Frame C)) : Machine C → Prop
  | parted {w : World C} : Exited g fs ⟨w, .task (.suspended g), .closing g :: fs⟩
  | defiant {w : World C} {v : Value} :
      Exited g fs ⟨w, .answer (.progress (.ok (.yielded v))), .closing g :: fs⟩
  | abandoned {w : World C} {fs' : List (Frame C)} : (w.generator g).Parked →
      Exited g fs ⟨w, .task (.abandon g), fs'⟩
  | dead {m : Machine C} : (m.world.generator g).status = .running →
      (m.world.generator g).Dead → Exited g fs m
  | ended {m : Machine C} : g < m.world.generators.size →
      (m.world.generator g).status = .finished → Exited g fs m

/-- Control is inside the producer of `g`, which is being closed on top of `fs`, or it has been. -/
def Exiting (g : GeneratorId) (fs : List (Frame C)) (m : Machine C) : Prop :=
  .driving g :: .closing g :: fs <:+ m.frames ∨ Exited g fs m

theorem not_inside_of_parked (h : Sound δ m) (hphase : m.control.phase? g = none)
    (hparked : (m.world.generator g).Parked) : .inside g ∉ Coroutine.marks m.frames := by
  obtain ⟨hidle, -⟩ := (h.rest hphase).idle_of_parked hparked
  exact ((h.rest hphase).idle_of_not_running hidle.running).1

theorem not_inside_of_dead (h : Sound δ m) (hdead : (m.world.generator g).Dead) :
    .inside g ∉ Coroutine.marks m.frames := by
  intro hin
  obtain ⟨size, hf⟩ := hdead
  cases hphase : m.control.phase? g with
  | none =>
    obtain ⟨size', hf'⟩ := ((h.rest hphase).inside hin).1.entered
    cases hf.symm.trans hf'
  | some phase =>
    obtain ⟨w, control, fs⟩ := m
    obtain ⟨t, rfl, ht⟩ := Control.task_of_phase? hphase
    have hat : At _ (Coroutine.marks fs) g (w.generator g) := h.shape g
    by_cases hwaking : phase = .waking
    · subst hwaking
      simp only [At, hphase] at hat
      obtain ⟨size', hf'⟩ := hat.2.1.entered
      cases hf.symm.trans hf'
    · exact (hat.phase ht hwaking).1 hin

theorem Exited.not_inside (hm : Exited g fs m) (h : Sound δ m) :
    .inside g ∉ Coroutine.marks m.frames := by
  cases hm with
  | @parted w =>
    have hat : At _ (Coroutine.marks (.closing g :: fs)) g (w.generator g) := h.shape g
    exact (hat.phase rfl (by decide)).1
  | defiant => exact not_inside_of_parked h rfl (parked_of_yielded h)
  | abandoned hparked => exact not_inside_of_parked h rfl hparked
  | dead _ hdead => exact not_inside_of_dead h hdead
  | ended _ hs => exact not_inside_of_finished h hs

theorem Exiting.not_resumes (hm : Exiting g fs m) (h : Sound δ m) : ¬ Resumes g m := by
  rintro ⟨hcontrol, hparked⟩
  obtain ⟨w, control, frames⟩ := m
  obtain rfl : control = _ := hcontrol
  have hat : At _ (Coroutine.marks frames) g (w.generator g) := h.shape g
  obtain ⟨hin, -, hstarted, -⟩ := hat.phase rfl (by decide)
  rcases hm with hframes | hexited
  · exact hin (marks_subset_of_suffix hframes (by simp))
  · cases hexited with
    | dead _ hdead => exact hdead.not_parked hparked
    | ended _ hs => cases hstarted.status.symm.trans hs

theorem exited_of_dead (h : Sound δ m) (hs : (m.world.generator g).status = .running)
    (hdead : (m.world.generator g).Dead) : Exited g fs (m.next P) := by
  have hlt := m.world.lt_size_of_dead hdead
  by_cases hdrive : m.control = .task (.drive g)
  · obtain ⟨w, control, frames⟩ := m
    obtain rfl : control = _ := hdrive
    obtain ⟨size, hf⟩ := hdead
    obtain ⟨w₁, hnext, hb⟩ := drive_over frames hf
    have hnext : next P ⟨w, .task (.drive g), frames⟩ = ⟨w₁, .task (.terminated g), frames⟩ := hnext
    rw [hnext]
    refine .dead ?_ ⟨size, ?_⟩
    · rw [← hs, ← hb.self]
    · rw [← hf, ← hb.self]
  · have hout (hinside : (m.world.generator g).Inside) : False := by
      obtain ⟨size, hf⟩ := hdead
      obtain ⟨size', hf'⟩ := hinside.entered
      cases hf.symm.trans hf'
    have hlater := Nat.lt_of_lt_of_le hlt (size_le_next (P := P) m)
    cases change_next (P := P) h hlt with
    | kept _ hx => exact .dead (hx.status.trans hs) (by rw [Generator.Dead, hx.fiber]; exact hdead)
    | starved _ hunused | started _ _ hunused => cases hs.symm.trans hunused
    | entered _ hcontrol => exact absurd hcontrol hdrive
    | parted _ _ _ _ hinside | left _ _ _ hinside => exact (hout hinside).elim
    | finished _ _ hx => exact .ended hlater hx.status
    | dissolved _ hfinished | unstacked _ hfinished | emptied _ hfinished =>
      cases hs.symm.trans hfinished
    | unwound _ _ hunwound => cases hs.symm.trans hunwound.ended.status
    | released _ hended => cases hs.symm.trans hended.status

theorem Exited.next (hm : Exited g fs m) (h : Sound δ m) : Exited g fs (m.next P) := by
  cases hm with
  | @parted w =>
    have hat : At _ (Coroutine.marks (.closing g :: fs)) g (w.generator g) := h.shape g
    obtain ⟨-, -, hstarted, -, -, -, hvalue, -⟩ := hat.phase rfl (by decide)
    obtain ⟨v, hvalue⟩ := Option.isSome_iff_exists.mp hvalue
    obtain ⟨w₁, hsuspended, -⟩ := suspended_running (.closing g :: fs) hstarted.status hvalue
      (w.lt_size_of_started hstarted)
    have hnext : next P ⟨w, .task (.suspended g), .closing g :: fs⟩ =
        ⟨w₁, .answer (.progress (.ok (.yielded v))), .closing g :: fs⟩ := hsuspended
    rw [hnext]
    exact .defiant
  | defiant =>
    have hparked := parked_of_yielded h
    exact .abandoned hparked
  | @abandoned w fs' hparked =>
    have hrest : Rest (Coroutine.marks fs') g (w.generator g) := h.rest rfl
    obtain ⟨-, hs⟩ := hrest.idle_of_parked hparked
    have hlt := w.lt_size_of_parked hparked
    obtain ⟨w', habandon, hb⟩ := abandon_of_not_finished fs' (by rw [hs]; nofun) hlt
    have hnext : next P ⟨w, .task (.abandon g), fs'⟩ = ⟨w', .task (.finalize g), fs'⟩ := habandon
    rw [hnext]
    exact .ended (hb.size ▸ hlt) (by rw [hb.self])
  | dead hs hdead => exact exited_of_dead h hs hdead
  | ended hlt hs =>
    exact .ended (Nat.lt_of_lt_of_le hlt (size_le_next m)) ((change_next h hlt).status hs)

/-- A producer that is left is resumed no more. -/
theorem exited_of_back (h : Sound δ m) (hm : Sound δ (m.next P))
    (hback : Back P (.driving g) (.closing g :: fs) m) : Exited g fs (m.next P) := by
  cases hback with
  | answers w a =>
    obtain ⟨κ, hκ, hfits⟩ := h.order
    cases hκ with
    | driving =>
      cases a with
      | outcome r =>
        obtain ⟨w₁, -, hend, -⟩ := next_of_end (P := P) h
        rw [hend] at hm ⊢
        have hat : At _ (Coroutine.marks (.closing g :: fs)) g (w₁.generator g) := hm.shape g
        obtain ⟨-, -, hstarted, -, hdead, -⟩ := hat.phase rfl (by decide)
        exact .dead hstarted.status hdead
      | _ => exact hfits.1.elim
  | unwinds w u =>
    have hrest : Rest (Coroutine.marks (.driving g :: .closing g :: fs)) g (w.generator g) :=
      h.rest rfl
    obtain ⟨hinside, -⟩ := hrest.inside (by simp)
    obtain ⟨size, hf⟩ := hinside.entered
    have hlt := w.lt_size_of_started hinside.started
    have hleft : (leaveProducer w g).generator g = _ := World.generator_modify_self hlt _
    refine .dead ?_ ⟨size, ?_⟩
    · show ((leaveProducer w g).generator g).status = .running
      rw [hleft]
      exact hinside.started.status
    · show ((leaveProducer w g).generator g).fiber = _
      rw [hleft, hf]
      rfl
  | yields w scopes captures hP =>
    obtain ⟨w₁, -, hyield, -⟩ := next_of_yield h hP
    rw [hyield]
    exact .parted

theorem Exiting.next (hm : Exiting g fs m) (h : Sound δ m) (hnext : Sound δ (m.next P)) :
    Exiting g fs (m.next P) := by
  rcases hm with hframes | hexited
  · rcases stays_next (P := P) id hframes with hback | hstays
    · exact .inr (exited_of_back h hnext hback)
    · exact .inl hstays
  · exact .inr (hexited.next h)

theorem Exited.again (hm : Exited g fs m) (hcompleted : m.Completed) (s : Step C) :
    Exited g fs ⟨m.world, .task (.step s), []⟩ := by
  cases hm with
  | parted | abandoned => exact absurd rfl hcompleted.control_ne
  | defiant => exact absurd (List.suffix_refl _) hcompleted.not_suffix
  | dead hs hdead => exact .dead hs hdead
  | ended hlt hs => exact .ended hlt hs

theorem Exited.later (hm : Exited g fs m) (h : Reachable P m) (hlater : Later P m m') :
    Exited g fs m' := by
  induction hlater with
  | refl => exact hm
  | move hk ih => exact ih.next (h.later hk).sound
  | again s _ hcompleted ih => exact ih.again hcompleted s

theorem Exiting.later (hm : Exiting g fs m) (h : Reachable P m) (hlater : Later P m m') :
    Exiting g fs m' := by
  induction hlater with
  | refl => exact hm
  | move hk ih => exact ih.next (h.later hk).sound (h.later hk).move.sound
  | again s _ hcompleted ih =>
    rcases ih with hframes | hexited
    · exact absurd hframes hcompleted.not_suffix
    · exact .inr (hexited.again hcompleted s)

/-- Control is inside a suspended producer once it has been switched there for a close. -/
theorem exiting_of_close (h : Sound δ ⟨w, .task (.close g), fs⟩)
    (hf : (w.generator g).fiber = some ⟨size, .suspended k scopes captures⟩) :
    Exiting g fs ((next P ⟨w, .task (.close g), fs⟩).next P) := by
  obtain ⟨w₁, hnext, hb⟩ := next_of_close (P := P) h hf
  have hf₁ : (w₁.generator g).fiber = some ⟨size, .suspended k scopes captures⟩ := by
    rw [hb.self]
    exact hf
  obtain ⟨w₂, hdrive, -⟩ :=
    drive_suspended (.closing g :: fs) hf₁ (w₁.lt_size_of_parked ⟨_, _, _, _, hf₁⟩)
  have hdrive : next P ⟨w₁, .task (.drive g), .closing g :: fs⟩ = _ := hdrive
  rw [hnext, hdrive]
  exact .inl (suffix_stackFiber ..)

/-- A close switches into the suspended producer once, and nothing does so later. -/
theorem resumes_once (hm : Reachable P ⟨w, .task (.close g), fs⟩)
    (hf : (w.generator g).fiber = some ⟨size, .suspended k scopes captures⟩)
    (hlater : Later P ⟨w, .task (.close g), fs⟩ m') (hagain : Resumes g m') :
    m' = next P ⟨w, .task (.close g), fs⟩ := by
  rcases hlater.cases with rfl | hlater
  · cases hagain.control
  rcases hlater.cases with rfl | hlater
  · rfl
  -- from the switch on, control is inside or the producer has been left
  exact absurd hagain (((exiting_of_close hm.sound hf).later hm.move.move hlater).not_resumes
    (hm.move.move.later hlater).sound)

end Machine

end Coroutine
