import Coroutine.Proofs.Guards

/-! Producers that come to their end. Main statement: if the scopes of a producer and what its entry
procedure captured can be released one after another, code that goes on to an outcome comes back with
it once they have been. -/

namespace Coroutine

variable {C : Type}

namespace Machine

variable {P : Program C} {m₀ m : Machine C} {w w' : World C} {fs : List (Frame C)} {c : C}
  {r : Except Exception Value} {t : Task C} {Q R : World C → Prop} {scopes : List (Scope C)}
  {captures : List (HeldGuard C)}

/-- Code that ends with this outcome, and does nothing before but leave scopes. -/
inductive Quits (P : Program C) (r : Except Exception Value) : C → Prop
  | finish {c : C} : P.next c = .finish r → Quits P r c
  | silent {c c' : C} : P.next c = .silent c' → Quits P r c' → Quits P r c
  | leave {c c' : C} : P.next c = .leave c' → Quits P r c' → Quits P r c

/-- What is suspended with `k` lets every exception that is raised there escape. -/
def LetsOut (P : Program C) (k : Except Exception (Option Value) → C) : Prop :=
  ∀ e, Quits P (.error e) (k (.error e))

/-- Wherever the task is done in the course of what is begun in `m₀`, with the world `w`, it comes back
without a panic, and `Q` holds then. -/
def Returns (P : Program C) (m₀ : Machine C) (t : Task C) (Q : World C → Prop) (w : World C) : Prop :=
  ∀ fs, Leads P m₀ ⟨w, .task t, fs⟩ →
    ∃ w', Within P fs ⟨w, .task t, fs⟩ ⟨w', .answer .unit, fs⟩ ∧ Q w'

/-- What holds of every world that the task comes back with holds when it does. -/
theorem Returns.imp (h : Returns P m₀ t Q w)
    (hQ : ∀ fs w', Leads P m₀ ⟨w, .task t, fs⟩ →
      Within P fs ⟨w, .task t, fs⟩ ⟨w', .answer .unit, fs⟩ → Q w' → R w') : Returns P m₀ t R w := by
  intro fs hlead
  obtain ⟨w', hwithin, hq⟩ := h fs hlead
  exact ⟨w', hwithin, hQ fs w' hlead hwithin hq⟩

/-- From the world `w` on the scopes, and then the captured guards, can be released one after another,
and `Q` holds then. -/
def Sheds (P : Program C) (m₀ : Machine C) (captures : List (HeldGuard C)) (Q : World C → Prop) :
    List (Scope C) → World C → Prop
  | [] => Returns P m₀ (.release captures) Q
  | s :: scopes => Returns P m₀ (.releaseScope s) (Sheds P m₀ captures Q scopes)

/-- The frame on top goes on when the task comes back. -/
theorem Returns.exists_within {f : Frame C} {below : List (Frame C)} (h : Returns P m₀ t Q w)
    (hm : Leads P m₀ ⟨w, .task t, f :: below⟩) (hfs : fs <:+ below) :
    ∃ w', Within P fs ⟨w, .task t, f :: below⟩ (next P ⟨w', .answer .unit, f :: below⟩) ∧ Q w' := by
  obtain ⟨w', hback, hQ⟩ := h _ hm
  have hcons : fs <:+ f :: below := hfs.trans (List.suffix_cons f below)
  refine ⟨w', (hback.of_suffix hcons).trans (.move hcons (fun _ _ heq => ?_) (.refl _)), hQ⟩
  have heq : f :: below = fs := heq
  exact absurd (heq ▸ hfs).length_le (Nat.not_succ_le_self _)

theorem stackFiber_ne : stackFiber scopes captures fs ≠ fs := by
  intro heq
  have hlength := congrArg List.length heq
  simp only [stackFiber, List.length_append, List.length_cons] at hlength
  omega

/-- When an entry procedure is over its stack is released. -/
theorem exists_shed {a : Answer} (hm : Leads P m₀ ⟨w, .answer a, stackFiber scopes captures fs⟩)
    (hsheds : Sheds P m₀ captures Q scopes w) :
    ∃ w', Within P fs ⟨w, .answer a, stackFiber scopes captures fs⟩ ⟨w', .answer a, fs⟩ ∧ Q w' := by
  induction scopes generalizing w with
  | nil =>
    have hpop : Within P fs ⟨w, .answer a, stackFiber [] captures fs⟩
        ⟨w, .task (.release captures), .keeping a :: fs⟩ :=
      .move (List.suffix_cons _ fs) (fun _ _ => List.cons_ne_self _ _) (.refl _)
    obtain ⟨w', hback, hQ⟩ := Returns.exists_within hsheds (hm.trans hpop.leads) (List.suffix_refl fs)
    exact ⟨w', hpop.trans hback, hQ⟩
  | cons s scopes ih =>
    have hbelow := suffix_stackFiber scopes captures fs
    have hpop : Within P fs ⟨w, .answer a, stackFiber (s :: scopes) captures fs⟩
        ⟨w, .task (.releaseScope s), .keeping a :: stackFiber scopes captures fs⟩ :=
      .move (suffix_stackFiber (s :: scopes) captures fs) (fun _ _ => stackFiber_ne) (.refl _)
    obtain ⟨w₁, hback, hrest⟩ := Returns.exists_within hsheds (hm.trans hpop.leads) hbelow
    obtain ⟨w', hto, hQ⟩ := ih (hm.trans (hpop.trans hback).leads) hrest
    exact ⟨w', hpop.trans (hback.trans hto), hQ⟩

/-- Code that quits comes to its end, and comes back when its stack has been released. -/
theorem Quits.exists_outcome (h : Quits P r c)
    (hm : Leads P m₀ ⟨w, .code c, stackFiber scopes captures fs⟩)
    (hsheds : Sheds P m₀ captures Q scopes w) :
    ∃ w', Within P fs ⟨w, .code c, stackFiber scopes captures fs⟩
      ⟨w', .answer (.outcome r), fs⟩ ∧ Q w' := by
  have hstack := suffix_stackFiber scopes captures fs
  induction h generalizing w scopes with
  | @finish c hP =>
    have hend : Within P fs ⟨w, .code c, stackFiber scopes captures fs⟩
        ⟨w, .answer (.outcome r), stackFiber scopes captures fs⟩ :=
      .of_code hstack hP rfl (.refl _)
    obtain ⟨w', hto, hQ⟩ := exists_shed (hm.trans hend.leads) hsheds
    exact ⟨w', hend.trans hto, hQ⟩
  | @silent c c' hP _ ih =>
    have hgoesOn : Within P fs ⟨w, .code c, stackFiber scopes captures fs⟩
        ⟨w, .code c', stackFiber scopes captures fs⟩ :=
      .of_code hstack hP rfl (.refl _)
    obtain ⟨w', hto, hQ⟩ := ih (hm.trans hgoesOn.leads) hsheds hstack
    exact ⟨w', hgoesOn.trans hto, hQ⟩
  | @leave c c' hP _ ih =>
    cases scopes with
    | nil =>
      have hgoesOn : Within P fs ⟨w, .code c, stackFiber [] captures fs⟩
          ⟨w, .code c', stackFiber [] captures fs⟩ :=
        .of_code hstack hP rfl (.refl _)
      obtain ⟨w', hto, hQ⟩ := ih (hm.trans hgoesOn.leads) hsheds hstack
      exact ⟨w', hgoesOn.trans hto, hQ⟩
    | cons s scopes =>
      have hbelow := suffix_stackFiber scopes captures fs
      have hleaves : Within P fs ⟨w, .code c, stackFiber (s :: scopes) captures fs⟩
          ⟨w, .task (.releaseScope s), .resuming c' :: stackFiber scopes captures fs⟩ :=
        .of_code hstack hP rfl (.refl _)
      obtain ⟨w₁, hback, hrest⟩ := Returns.exists_within hsheds (hm.trans hleaves.leads) hbelow
      obtain ⟨w', hto, hQ⟩ := ih (hm.trans (hleaves.trans hback).leads) hrest hbelow
      exact ⟨w', hleaves.trans (hback.trans hto), hQ⟩

end Machine

end Coroutine
