import Coroutine.Proofs.Lasting
import Coroutine.Proofs.Outcome

/-! The release of guards. Main statement: when the release of guards comes back, every one of them
has been released, and its release logic is over. -/

namespace Coroutine

variable {C : Type}

/-- The guards that the frame holds, and releases when it is left. -/
def Frame.guards : Frame C → List (HeldGuard C)
  | scope (.guard held) => [held]
  | closure captures => captures
  | _ => []

/-- What is recorded of the release of a guard. -/
def HeldGuard.release (held : HeldGuard C) : Event := .released held.serial held.guard.name

/-- The event happened between the two worlds. -/
def World.Gains (w w' : World C) (e : Event) : Prop :=
  ∃ events, w'.history = events ++ w.history ∧ e ∈ events

/-- The events happened between the two worlds, one after another. -/
def World.Tells (w w' : World C) (es : List Event) : Prop :=
  ∃ events, w'.history = events ++ w.history ∧ es.Sublist events.reverse

namespace World

variable {w w' w'' : World C} {e : Event} {es es' : List Event}

theorem Gains.earlier (h : w'.Gains w'' e) (hw : w.history <:+ w'.history) : w.Gains w'' e := by
  obtain ⟨events, hevents, he⟩ := h
  obtain ⟨before, hbefore⟩ := hw
  refine ⟨events ++ before, ?_, List.mem_append_left _ he⟩
  rw [hevents, ← hbefore, List.append_assoc]

theorem Gains.later (h : w.Gains w' e) (hw : w'.history <:+ w''.history) : w.Gains w'' e := by
  obtain ⟨events, hevents, he⟩ := h
  obtain ⟨after, hafter⟩ := hw
  refine ⟨after ++ events, ?_, List.mem_append_right _ he⟩
  rw [← hafter, hevents, List.append_assoc]

theorem tells_nil (hw : w.history <:+ w'.history) : w.Tells w' [] := by
  obtain ⟨events, hevents⟩ := hw
  exact ⟨events, hevents.symm, List.nil_sublist _⟩

theorem tells_cons (hw : w'.history = e :: w.history) : w.Tells w' [e] :=
  ⟨[e], hw, List.Sublist.refl _⟩

theorem Tells.trans (h : w.Tells w' es) (h' : w'.Tells w'' es') : w.Tells w'' (es ++ es') := by
  obtain ⟨events, hevents, hes⟩ := h
  obtain ⟨events', hevents', hes'⟩ := h'
  refine ⟨events' ++ events, ?_, ?_⟩
  · rw [hevents', hevents, List.append_assoc]
  · rw [List.reverse_append]
    exact hes.append hes'

theorem Tells.earlier (h : w'.Tells w'' es) (hw : w.history <:+ w'.history) : w.Tells w'' es :=
  (tells_nil hw).trans h

theorem Tells.later (h : w.Tells w' es) (hw : w'.history <:+ w''.history) : w.Tells w'' es := by
  simpa using h.trans (tells_nil hw)

theorem Tells.gains (h : w.Tells w' es) (he : e ∈ es) : w.Gains w' e := by
  obtain ⟨events, hevents, hes⟩ := h
  exact ⟨events, hevents, List.mem_reverse.mp (hes.subset he)⟩

end World

namespace Machine

variable {P : Program C} {δ : GeneratorId → Prop} {w w' : World C} {fs : List (Frame C)}
  {b : Answer} {name : String} {todo : List (Step C)} {guards : List (HeldGuard C)} {m : Machine C}

/-- Release logic goes on when a step of it comes back, with a reply or with a panic that ends
there. -/
theorem releaseStep_of_back (h : Sound δ m) (hback : Back P (.onRelease name todo guards) fs m) :
    m.frames = .onRelease name todo guards :: fs ∧
      ∃ (w : World C) (e : Event), m.next P = releaseStep (w.note e) fs name todo guards := by
  obtain ⟨κ, hκ, hfits⟩ := h.order
  cases hback with
  | answers w a =>
    cases hκ with
    | onRelease =>
      cases a with
      | reply r => exact ⟨rfl, w, .onRelease name r, rfl⟩
      | _ => exact hfits.1.elim
  | unwinds w u =>
    cases hκ with
    | onRelease =>
      cases u with
      | panic p => exact ⟨rfl, w, .onRelease name (.panicked p.message), rfl⟩
      | cancel => cases hfits
  | yields w scopes captures _ =>
    obtain rfl : κ = .code := hfits
    cases Awaits.stackFiber_iff.mp hκ

/-- The release logic of a guard comes to its end, and then the guards after it are released. -/
theorem within_releaseStep (hm : Reachable P (releaseStep w fs name todo guards))
    (h : Within P fs (releaseStep w fs name todo guards) m) (hback : m.frames = fs) :
    ∃ w₁, Within P fs (releaseStep w fs name todo guards) ⟨w₁, .task (.release guards), fs⟩ ∧
      Within P fs ⟨w₁, .task (.release guards), fs⟩ m := by
  induction todo generalizing w with
  | nil => exact ⟨w, .refl _, h⟩
  | cons s todo ih =>
    obtain ⟨m₁, hbefore, hafter, honRelease⟩ :=
      Within.back (f := .onRelease name todo guards) id h (List.suffix_refl _) hback
    have hm₁ := hm.leads hbefore.leads
    obtain ⟨hframes, w₁, e, hstep⟩ := releaseStep_of_back hm₁.sound honRelease
    have hsuffix : fs <:+ m₁.frames := hframes ▸ List.suffix_cons _ fs
    have hne : m₁.frames ≠ fs := hframes ▸ List.cons_ne_self _ _
    have hrest := hafter.of_ne fun heq => hne (heq ▸ hback)
    obtain ⟨w₂, hto, hfrom⟩ := ih (hstep ▸ hm₁.move) (hstep ▸ hrest)
    exact ⟨w₂, hbefore.under.trans (.move hsuffix (fun _ _ => hne) (hstep ▸ hto)), hfrom⟩

/-- When the release of guards comes back, all of them have been released, one after another. -/
theorem tells_of_release (hm : Reachable P ⟨w, .task (.release guards), fs⟩)
    (h : Within P fs ⟨w, .task (.release guards), fs⟩ ⟨w', .answer b, fs⟩) :
    w.Tells w' (guards.map HeldGuard.release) := by
  induction guards generalizing w with
  | nil => exact World.tells_nil (history_of_leads hm h.leads)
  | cons first rest ih =>
    have hstep : Within P fs (releaseStep (w.note (.released first.serial first.guard.name)) fs
        first.guard.name first.guard.onDrop rest) ⟨w', .answer b, fs⟩ := h.of_ne nofun
    have hmove : Reachable P (releaseStep (w.note (.released first.serial first.guard.name)) fs
        first.guard.name first.guard.onDrop rest) := hm.move
    obtain ⟨w₁, hto, hfrom⟩ := within_releaseStep hmove hstep rfl
    have hlogic := history_of_leads hmove hto.leads
    rw [world_releaseStep] at hlogic
    have hfirst : w.Tells (w.note first.release) [first.release] := World.tells_cons rfl
    exact (hfirst.later hlogic).trans (ih (hmove.leads hto.leads) hfrom)

theorem gains_of_release (hm : Reachable P ⟨w, .task (.release guards), fs⟩)
    (h : Within P fs ⟨w, .task (.release guards), fs⟩ ⟨w', .answer b, fs⟩)
    {held : HeldGuard C} (hheld : held ∈ guards) :
    w.Gains w' (.released held.serial held.guard.name) :=
  (tells_of_release hm h).gains (List.mem_map.mpr ⟨held, hheld, rfl⟩)

end Machine

end Coroutine
