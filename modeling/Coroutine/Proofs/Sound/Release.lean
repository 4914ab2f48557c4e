import Coroutine.Proofs.Sound

/-! Releasing what user code holds keeps the invariant. -/

namespace Coroutine.Machine

variable {C : Type} {δ : GeneratorId → Prop} {w : World C} {fs : List (Frame C)}

/-- The steps of release logic are made on top of the frames that wait for the release. -/
theorem sound_releaseStep {m : Machine C} {name : String} {todo : List (Step C)}
    {rest : List (HeldGuard C)} {κ : Awaited} (h : Sound δ m) (hm : m.control.Neutral)
    (hw : w.generators = m.world.generators) (hmarks : marks fs = marks m.frames)
    (hκ : Awaits (m.world.fates m.control) κ fs) (hquiet : κ = .unit ∨ κ = .quiet)
    (howned : ∀ g, w.held g + heldFrames g fs ≤ m.held g) :
    Sound δ (releaseStep w fs name todo rest) := by
  cases todo with
  | nil =>
    refine h.still hm hw (fun _ => rfl) hmarks ⟨κ, hκ, hquiet⟩ fun g => ?_
    simpa [Control.held, Task.held] using howned g
  | cons s todo =>
    refine h.still hm hw (fun _ => rfl) (by simpa using hmarks) ⟨.reply, .onRelease hquiet hκ, rfl⟩
      fun g => ?_
    simpa [Control.held, Task.held, Frame.held] using howned g

theorem sound_release {guards : List (HeldGuard C)}
    (h : Sound δ ⟨w, .task (.release guards), fs⟩) : Sound δ (release w fs guards) := by
  have hc : (Control.task (.release guards) : Control C).Neutral := Control.neutral_task rfl nofun
  obtain ⟨κ, hκ, hquiet⟩ := h.order
  cases guards with
  | nil =>
    refine h.still hc rfl (fun _ => rfl) rfl ⟨κ, hκ, ?_⟩ fun g => ?_
    · rcases hquiet with rfl | rfl <;> exact ⟨trivial, nofun⟩
    · simp [Machine.held, Control.held]
  | cons held rest =>
    refine sound_releaseStep h hc rfl rfl hκ hquiet fun g => ?_
    simp [Machine.held]

theorem sound_releaseScope {s : Scope C} (h : Sound δ ⟨w, .task (.releaseScope s), fs⟩) :
    Sound δ (releaseScope w fs s) := by
  have hc : (Control.task (.releaseScope s) : Control C).Neutral := Control.neutral_task rfl nofun
  obtain ⟨κ, hκ, hunit⟩ := h.order
  obtain rfl : κ = .unit := hunit
  have hanswer : Sound δ (answer w fs .unit) := by
    refine h.still hc rfl (fun _ => rfl) rfl ⟨_, hκ, trivial, nofun⟩ fun g => ?_
    simp [Machine.held, Control.held]
  rcases s with held | name | source
  · refine h.still hc rfl (fun _ => rfl) rfl ⟨_, hκ, .inl rfl⟩ fun g => ?_
    simp [Machine.held, Control.held, Task.held]
  · simp only [releaseScope]
    split
    · exact hanswer
    · next hfind =>
      refine h.still hc rfl (fun _ => rfl) rfl ⟨_, hκ, rfl⟩ fun g => ?_
      have := w.held_erase_handle (g := g) name
      simp only [hfind, sourceHeld, Option.map_some, Option.getD_some] at this
      simp only [Machine.held, Control.held, Task.held, Scope.held]
      omega
  · cases source with
    | none => exact hanswer
    | some g =>
      refine h.still hc rfl (fun _ => rfl) rfl ⟨_, hκ, rfl⟩ fun g => ?_
      simp [Machine.held, Control.held, Task.held, Scope.held, sourceHeld]

theorem sound_discard {announced : Bool} {fiber : Fiber C}
    (h : Sound δ ⟨w, .task (.discard announced fiber), fs⟩) :
    Sound δ (discard w fs announced fiber) := by
  have hc : (Control.task (.discard announced fiber) : Control C).Neutral :=
    Control.neutral_task rfl nofun
  obtain ⟨κ, hκ, hunit⟩ := h.order
  obtain rfl : κ = .unit := hunit
  have hanswer {w' : World C} (hgen : w'.generators = w.generators)
      (hheld : ∀ g, w'.held g = w.held g) : Sound δ (answer w' fs .unit) := by
    refine h.still hc hgen (fun _ => rfl) rfl ⟨_, hκ, trivial, nofun⟩ fun g => ?_
    simp [Machine.held, Control.held, hheld]
  obtain ⟨size, state⟩ := fiber
  rcases state with entry | ⟨k, scopes, captures⟩ | _ | _
  · refine h.still hc rfl (fun _ => rfl) rfl ⟨_, hκ, .inl rfl⟩ fun g => ?_
    simp [Machine.held, Control.held, Task.held]
  · simp only [discard]
    split
    · cases announced
      · exact hanswer rfl fun _ => rfl
      · exact hanswer rfl fun _ => rfl
    · refine h.still hc (by cases announced <;> rfl) (fun _ => rfl) (by simp)
        ⟨_, .stackFiber_cancel (.dismantling hκ), rfl⟩ fun g => ?_
      cases announced
      all_goals
        simp [Machine.held, Control.held, Task.held, FiberState.held, Frame.held]
        omega
  · exact hanswer rfl fun _ => rfl
  · exact hanswer rfl fun _ => rfl

end Coroutine.Machine
