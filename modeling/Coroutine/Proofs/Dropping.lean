import Coroutine.Proofs.Composure
import Coroutine.Proofs.Shutdown

/-! Handles and their drops. Main statement: a handle only counts. With the last one, which is never
dropped inside the generator's own producer, a generator that has not finished is closed; whatever comes
of that, it is finalized by the end of the drop. -/

namespace Coroutine

variable {C : Type}

namespace Machine

variable {P : Program C} {δ : GeneratorId → Prop} {g : GeneratorId} {w w' : World C}
  {fs : List (Frame C)} {f : Frame C} {m m' : Machine C} {ms : List (Machine C)} {u : Unwinding}

/-! ### Handles that count -/

/-- A handle that is dropped inside the producer of its generator is not the last one. -/
theorem handles_of_inside (h : Sound δ ⟨w, .task (.dropHandle g), fs⟩)
    (hin : .inside g ∈ Coroutine.marks fs) : 1 < (w.generator g).handles := by
  have howned := handleTo_le_of_dropHandle h g
  rw [handleTo_self] at howned
  obtain ⟨κ, hκ, -⟩ := h.order
  rcases hκ.held_of_inside hin with hheld | hdropped
  · have hbelow : 0 < heldFrames g fs := hheld
    omega
  · have hnone : (w.generator g).handles = 0 := (h.dropped g hdropped).2
    omega

theorem Quiet.idle (hg : Quiet g m) (h : Sound δ m) : (m.world.generator g).Idle :=
  ((h.rest hg.phase).idle hg.inside hg.unwound).1

/-! ### The end of a drop -/

/-- A generator that is finished by force is finalized with that. -/
theorem spent_of_abandon (hm : Reachable P ⟨w, .task (.abandon g), fs⟩) (hlt : g < w.generators.size)
    (hspent : (w.generator g).status = .finished → (w.generator g).Spent)
    (h : Within P fs ⟨w, .task (.abandon g), fs⟩ m') (hover : Over ⟨w, .task (.abandon g), fs⟩ m') :
    (m'.world.generator g).Spent := by
  by_cases hs : (w.generator g).status = .finished
  · exact (spent_of_later hm (.of_leads h.leads) hlt (hspent hs)).1
  · obtain ⟨w₁, habandon, hb⟩ := abandon_of_not_finished fs hs hlt
    have hto : Within P fs ⟨w, .task (.abandon g), fs⟩ ⟨w₁, .task (.finalize g), fs⟩ :=
      .of_task (List.suffix_refl fs) habandon (.refl _)
    exact (spent_of_finalize (hm.leads hto.leads) (hb.size ▸ hlt) (h.of_task_over hover habandon)
      (hover.of_frames rfl)).2

/-- What is left once a generator has been finished by force is left for the same reason. -/
theorem unwind_of_abandon (hm : Reachable P ⟨w, .task (.abandon g), .unwinding u :: fs⟩)
    (hlt : g < w.generators.size)
    (hspent : (w.generator g).status = .finished → (w.generator g).Spent)
    (h : Within P fs ⟨w, .task (.abandon g), .unwinding u :: fs⟩ m')
    (hover : Over ⟨w, .task (.abandon g), fs⟩ m') :
    (∃ w', m' = ⟨w', .unwind u, fs⟩) ∧ (m'.world.generator g).Spent := by
  obtain ⟨m₁, hbefore, hover₁, hafter⟩ :=
    exists_over hm id (fun _ h => by cases h) rfl h hover.frames
  have hspent₁ := spent_of_abandon hm hlt hspent hbefore hover₁
  have hm₁ := hm.leads hbefore.leads
  have hlt₁ := (stage_le_of_later hm (.of_leads hbefore.leads) hlt).1
  refine ⟨?_, (spent_of_later hm₁ (.of_leads (.move hafter.leads)) hlt₁ hspent₁).1⟩
  cases hover₁ with
  | answered w₁ a =>
    have hleft : Within P fs ⟨w₁, .unwind u, fs⟩ m' := hafter
    exact ⟨w₁, hleft.eq_of_unwind hover.frames⟩
  | unwound w₁ u' =>
    -- a cleanup that panics here ends everything
    have haborted : Within P fs ⟨w₁, .aborted, fs⟩ m' := hafter
    rw [haborted.eq_of_aborted] at hover
    cases hover

/-- The world when a drop has made the record of how its close ended, if that was with an exception. -/
def warned (w : World C) (g : GeneratorId) : Except OpError Unit → World C
  | .ok _ => w
  | .error e => w.log (.failedToClose g (w.generator g).name e.message)

theorem generator_warned (w : World C) (r : Except OpError Unit) :
    (warned w g r).generator g = w.generator g := by
  cases r <;> rfl

/-- A close that has come back to a drop is followed by its record. -/
theorem within_warned {w₁ : World C} (fs : List (Frame C)) (r : Except OpError Unit)
    (hs : (w₁.generator g).status = .finished) :
    Within P fs ⟨w₁, .answer (.closed r), .dropping g :: fs⟩ ⟨warned w₁ g r, .answer .unit, fs⟩ := by
  have hwarned : next P ⟨w₁, .answer (.closed r), .dropping g :: fs⟩ =
      ⟨warned w₁ g r, .task (.abandon g), fs⟩ := by
    cases r <;> rfl
  have hfinished : ((warned w₁ g r).generator g).status = .finished := by
    rw [generator_warned, hs]
  exact .move (List.suffix_cons _ fs) (fun _ _ => List.cons_ne_self _ _)
    (hwarned ▸ .of_task (List.suffix_refl fs) (abandon_of_finished fs hfinished) (.refl _))

end Machine

end Coroutine
