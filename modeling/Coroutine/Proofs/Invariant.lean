import Coroutine.Proofs.Reachable
import Coroutine.Proofs.Sound.Return
import Coroutine.Proofs.Sound.Switch

/-! Every state that sessions reach satisfies the invariant: the first state does, every move keeps
it, and so does the step from one performance to the next. -/

namespace Coroutine

variable {C : Type} {P : Program C} {δ : GeneratorId → Prop} {m : Machine C}

namespace Machine

theorem sound_perform {w : World C} {fs : List (Frame C)} {t : Task C}
    (h : Sound δ ⟨w, .task t, fs⟩) : Sound δ (perform w fs t) := by
  cases t with
  | resume g sent => exact sound_resume h
  | start g => exact sound_start h
  | throw g e => exact sound_throwInto h
  | close g => exact sound_close h
  | drive g => exact sound_drive h
  | wake g k => exact sound_wake h
  | suspended g => exact sound_suspended h
  | terminated g => exact sound_terminated h
  | abandon g => exact sound_abandon h
  | finalize g => exact sound_finalize h
  | releaseEntry g => exact sound_releaseEntry h
  | releasePayload g => exact sound_releasePayload h
  | dropHandle g => exact sound_dropHandle h
  | release guards => exact sound_release h
  | releaseScope s => exact sound_releaseScope h
  | discard announced fiber => exact sound_discard h
  | step s => exact sound_makeStep h

theorem sound_next (h : Sound δ m) (hδ : ∀ g, m.Defies g → δ g) : Sound δ (m.next P) := by
  obtain ⟨w, control, fs⟩ := m
  cases control with
  | code c => exact sound_grant h
  | task t => exact sound_perform h
  | answer a => exact sound_deliver h hδ
  | unwind u =>
    cases u with
    | panic p => exact sound_leave_panic h
    | cancel => exact sound_leave_cancel h
  | aborted | stuck => exact h

theorem sound_start_session (stackMemory : Nat) (s : Step C) :
    Sound δ ⟨{ stackMemory }, .task (.step s), []⟩ where
  order := ⟨.reply, .nothing, rfl⟩
  shape g := by
    have hvacant : ({ stackMemory } : World C).generator g = .vacant := rfl
    show Rest [] g (({ stackMemory } : World C).generator g)
    rw [hvacant]
    refine ⟨nofun, nofun, fun _ _ => ⟨⟨rfl, ⟨rfl, rfl, rfl⟩, nofun, nofun,
      fun _ => ⟨⟨rfl, rfl, fun _ => .inl rfl⟩, rfl, nofun⟩⟩, fun _ hc => ?_⟩⟩
    simp [Generator.vacant] at hc
  owned g := Nat.le_refl _
  dropped g h := nomatch h
  unheld g h _ := absurd h (Nat.not_lt_zero _)

theorem sound_again (h : Sound δ m) (hm : m.Completed) (s : Step C) :
    Sound δ ⟨m.world, .task (.step s), []⟩ := by
  obtain ⟨w, control, fs⟩ := m
  obtain ⟨hfs, hcontrol⟩ := hm
  obtain rfl : fs = [] := hfs
  have hneutral : control.Neutral := by
    rcases hcontrol with ⟨a, ha⟩ | ⟨u, hu⟩
    · obtain rfl : control = .answer a := ha
      exact Control.neutral_answer a
    · obtain rfl : control = .unwind u := hu
      exact Control.neutral_unwind u
  refine h.still hneutral rfl (fun _ => rfl) rfl ⟨.reply, .nothing, rfl⟩ fun k => ?_
  simp [Machine.held, Control.held, Task.held]

theorem Reachable.sound (h : Reachable P m) : Sound (fun _ => True) m := by
  induction h with
  | start stackMemory s => exact sound_start_session stackMemory s
  | move _ ih => exact sound_next ih fun _ _ => trivial
  | again s _ hm ih => exact sound_again ih hm s

end Machine

end Coroutine
