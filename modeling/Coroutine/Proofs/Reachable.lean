import Coroutine.Session

/-! The states that the machine gets to: how moves lead from one state to another, and which states
sessions reach. Main statement: the steps that a session performs are made of reachable states. -/

namespace Coroutine

variable {C : Type}

namespace Machine

/-- Moves lead from one state to another. -/
inductive Leads (P : Program C) : Machine C → Machine C → Prop
  | refl (m : Machine C) : Leads P m m
  | move {m m' : Machine C} : Leads P (m.next P) m' → Leads P m m'

namespace Leads

variable {P : Program C}

theorem single (m : Machine C) : Leads P m (m.next P) := .move (.refl _)

theorem step {a b c : Machine C} (h : a.next P = b) (hbc : Leads P b c) : Leads P a c :=
  .move (h ▸ hbc)

theorem trans {a b c : Machine C} (hab : Leads P a b) (hbc : Leads P b c) : Leads P a c := by
  induction hab with
  | refl => exact hbc
  | move _ ih => exact .move (ih hbc)

end Leads

/-- What a state leads to is on its run, and before the end of the run if it has one. -/
theorem Leads.exists_run {P : Program C} {m m' : Machine C} (h : Leads P m m') (fuel : Nat)
    (hrest : (run P fuel m).atRest = true) : ∃ n ≤ fuel, run P n m = m' := by
  induction h generalizing fuel with
  | refl m => exact ⟨0, Nat.zero_le _, rfl⟩
  | @move m m' _ ih =>
    by_cases hm : m.atRest = true
    · rw [next_eq_self_of_atRest P hm] at ih
      exact ih fuel hrest
    · cases fuel with
      | zero => exact absurd hrest hm
      | succ fuel =>
        obtain ⟨n, hn, hrun⟩ := ih fuel (by simpa [run, hm] using hrest)
        exact ⟨n + 1, Nat.succ_le_succ hn, by simpa [run, hm] using hrun⟩

theorem leads_run (P : Program C) (fuel : Nat) (m : Machine C) : Leads P m (run P fuel m) := by
  induction fuel generalizing m with
  | zero => exact .refl m
  | succ fuel ih =>
    rw [run]
    split
    · exact .refl m
    · exact .move (ih _)

/-- The step is over, with an answer or with a panic. -/
def Completed (m : Machine C) : Prop :=
  m.frames = [] ∧ ((∃ a, m.control = .answer a) ∨ ∃ u, m.control = .unwind u)

theorem Completed.not_suffix {m : Machine C} (h : m.Completed) {f : Frame C}
    {fs : List (Frame C)} : ¬ f :: fs <:+ m.frames := by
  rw [h.1]
  exact fun hfs => absurd hfs.length_le (Nat.not_succ_le_zero _)

theorem Completed.control_ne {m : Machine C} (h : m.Completed) {t : Task C} :
    m.control ≠ .task t := by
  rcases h.2 with ⟨a, ha⟩ | ⟨u, hu⟩
  · rw [ha]
    nofun
  · rw [hu]
    nofun

theorem Completed.next_eq {P : Program C} {m : Machine C} (h : m.Completed) : m.next P = m := by
  obtain ⟨w, control, fs⟩ := m
  obtain ⟨hfs, hcontrol⟩ := h
  obtain rfl : fs = [] := hfs
  apply next_eq_self_of_atRest
  rcases hcontrol with ⟨a, ha⟩ | ⟨u, hu⟩
  · obtain rfl : control = .answer a := ha
    rfl
  · obtain rfl : control = .unwind u := hu
    rfl

/-- What sessions get to: a first step is made in a new world, and when a step is over another one
may be made in the world that it leaves. -/
inductive Reachable (P : Program C) : Machine C → Prop
  | start (stackMemory : Nat) (s : Step C) : Reachable P ⟨{ stackMemory }, .task (.step s), []⟩
  | move {m : Machine C} : Reachable P m → Reachable P (m.next P)
  | again {m : Machine C} (s : Step C) :
      Reachable P m → m.Completed → Reachable P ⟨m.world, .task (.step s), []⟩

theorem Reachable.leads {P : Program C} {m m' : Machine C} (h : Reachable P m)
    (hm : Leads P m m') : Reachable P m' := by
  induction hm with
  | refl => exact h
  | move _ ih => exact ih h.move

/-- Sessions get from one state to another. -/
inductive Later (P : Program C) (m : Machine C) : Machine C → Prop
  | refl : Later P m m
  | move {m' : Machine C} : Later P m m' → Later P m (m'.next P)
  | again {m' : Machine C} (s : Step C) :
      Later P m m' → m'.Completed → Later P m ⟨m'.world, .task (.step s), []⟩

theorem Reachable.later {P : Program C} {m m' : Machine C} (h : Reachable P m)
    (hm : Later P m m') : Reachable P m' := by
  induction hm with
  | refl => exact h
  | move _ ih => exact ih.move
  | again s _ hcompleted ih => exact ih.again s hcompleted

theorem Later.of_leads {P : Program C} {m m' : Machine C} (h : Leads P m m') : Later P m m' := by
  suffices hafter : ∀ m₀, Later P m₀ m → Later P m₀ m' from hafter m .refl
  induction h with
  | refl => exact fun _ h => h
  | move _ ih => exact fun m₀ h => ih m₀ h.move

theorem Later.trans {P : Program C} {m m' m'' : Machine C} (h : Later P m m')
    (h' : Later P m' m'') : Later P m m'' := by
  induction h' with
  | refl => exact h
  | move _ ih => exact ih.move
  | again s _ hcompleted ih => exact ih.again s hcompleted

/-- What comes later than a state is the state itself or comes later than the next one. -/
theorem Later.cases {P : Program C} {m m' : Machine C} (h : Later P m m') :
    m' = m ∨ Later P (m.next P) m' := by
  induction h with
  | refl => exact .inl rfl
  | move _ ih =>
    rcases ih with rfl | ih
    · exact .inr .refl
    · exact .inr ih.move
  | again s _ hcompleted ih =>
    rcases ih with rfl | ih
    · refine .inr ?_
      have hagain := Later.again s (P := P) .refl hcompleted
      rw [hcompleted.next_eq]
      exact hagain
    · exact .inr (ih.again s hcompleted)

/-- While a step goes on, there is one state that comes next. -/
theorem Later.of_task {P : Program C} {w : World C} {t : Task C} {fs : List (Frame C)}
    {m' : Machine C} (h : Later P ⟨w, .task t, fs⟩ m') :
    m' = ⟨w, .task t, fs⟩ ∨ Later P (perform w fs t) m' :=
  h.cases

/-- What comes later than a state comes before or after a state that moves lead to. -/
theorem Later.compare {P : Program C} {m m₁ m' : Machine C} (h : Later P m m')
    (hm₁ : Leads P m m₁) : Leads P m' m₁ ∨ Later P m₁ m' := by
  induction hm₁ with
  | refl => exact .inr h
  | @move m m₁ hm₁ ih =>
    rcases h.cases with rfl | h
    · exact .inl (.move hm₁)
    · exact ih h

/-- What comes later than a state and what comes after a state that moves lead to go on to a common
state. -/
theorem Later.meet {P : Program C} {m m₁ m' : Machine C} (h : Later P m m')
    (hm₁ : Leads P m m₁) : ∃ k, Later P m' k ∧ Later P (m₁.next P) k := by
  rcases h.compare hm₁ with hbefore | hafter
  · exact ⟨m₁.next P, (Later.of_leads hbefore).move, .refl⟩
  · rcases hafter.cases with rfl | hafter
    · exact ⟨m'.next P, .move .refl, .refl⟩
    · exact ⟨m', .refl, hafter⟩

/-- What happens while sessions go on, the latest state first. -/
inductive Run (P : Program C) : List (Machine C) → Prop
  | start (stackMemory : Nat) (s : Step C) : Run P [⟨{ stackMemory }, .task (.step s), []⟩]
  | move {m : Machine C} {ms : List (Machine C)} : Run P (m :: ms) → Run P (m.next P :: m :: ms)
  | again {m : Machine C} {ms : List (Machine C)} (s : Step C) :
      Run P (m :: ms) → m.Completed → Run P (⟨m.world, .task (.step s), []⟩ :: m :: ms)

/-- The state that a number of moves from `m` leads to, and the states before it, after `ms`. -/
def trail (P : Program C) : Nat → Machine C → List (Machine C) → Machine C × List (Machine C)
  | 0, m, ms => (m, ms)
  | n + 1, m, ms => trail P n (m.next P) (m :: ms)

theorem Run.trail {P : Program C} {m : Machine C} {ms : List (Machine C)} (h : Run P (m :: ms))
    (n : Nat) : Run P ((trail P n m ms).1 :: (trail P n m ms).2) := by
  induction n generalizing m ms with
  | zero => exact h
  | succ n ih => exact ih h.move

/-- What holds of a first state, and is kept by moves and from one step to the next, holds of every
run. -/
theorem Run.invariant {P : Program C} {I : Machine C → List (Machine C) → Prop}
    (hstart : ∀ stackMemory s, I ⟨{ stackMemory }, .task (.step s), []⟩ [])
    (hmove : ∀ m ms, Run P (m :: ms) → I m ms → I (m.next P) (m :: ms))
    (hagain : ∀ m ms s, Run P (m :: ms) → m.Completed → I m ms →
      I ⟨m.world, .task (.step s), []⟩ (m :: ms))
    {m : Machine C} {ms : List (Machine C)} (h : Run P (m :: ms)) : I m ms := by
  generalize hrun : m :: ms = run at h
  induction h generalizing m ms with
  | start stackMemory s =>
    cases hrun
    exact hstart stackMemory s
  | move h ih =>
    cases hrun
    exact hmove _ _ h (ih rfl)
  | again s h hm ih =>
    cases hrun
    exact hagain _ _ s h hm (ih rfl)

/-- The reachable states are the ones that something happens up to. -/
theorem reachable_iff_run {P : Program C} {m : Machine C} :
    Reachable P m ↔ ∃ ms, Run P (m :: ms) := by
  constructor
  · intro h
    induction h with
    | start stackMemory s => exact ⟨[], .start stackMemory s⟩
    | move _ ih =>
      obtain ⟨ms, hrun⟩ := ih
      exact ⟨_, hrun.move⟩
    | again s _ hm ih =>
      obtain ⟨ms, hrun⟩ := ih
      exact ⟨_, hrun.again s hm⟩
  · rintro ⟨ms, hrun⟩
    generalize heq : m :: ms = run at hrun
    induction hrun generalizing m ms with
    | start stackMemory s =>
      cases heq
      exact .start stackMemory s
    | move _ ih =>
      cases heq
      exact (ih _ rfl).move
    | again s _ hm ih =>
      cases heq
      exact (ih _ rfl).again s hm

theorem Run.reachable {P : Program C} {m : Machine C} {ms : List (Machine C)}
    (h : Run P (m :: ms)) : Reachable P m :=
  reachable_iff_run.mpr ⟨ms, h⟩

/-- Every state of a run is reachable, and sessions get from it to the latest one. -/
theorem Run.of_mem {P : Program C} {m m₀ : Machine C} {ms : List (Machine C)}
    (h : Run P (m :: ms)) (hm₀ : m₀ ∈ ms) :
    Reachable P m₀ ∧ Later P m₀ m ∧ (¬ m₀.Completed → Later P (m₀.next P) m) := by
  refine Run.invariant (I := fun m ms => ∀ m₀ ∈ ms,
    Reachable P m₀ ∧ Later P m₀ m ∧ (¬ m₀.Completed → Later P (m₀.next P) m)) ?_ ?_ ?_ h m₀ hm₀
  · rintro _ _ m₀ hm₀
    cases hm₀
  · intro m ms hrun ih m₀ hm₀
    rcases List.mem_cons.mp hm₀ with rfl | hm₀
    · exact ⟨hrun.reachable, .move .refl, fun _ => .refl⟩
    · obtain ⟨hreach, hlater, hnext⟩ := ih m₀ hm₀
      exact ⟨hreach, hlater.move, fun hopen => (hnext hopen).move⟩
  · intro m ms s hrun hm ih m₀ hm₀
    rcases List.mem_cons.mp hm₀ with rfl | hm₀
    · exact ⟨hrun.reachable, .again s .refl hm, fun hopen => absurd hm hopen⟩
    · obtain ⟨hreach, hlater, hnext⟩ := ih m₀ hm₀
      exact ⟨hreach, hlater.again s hm, fun hopen => (hnext hopen).again s hm⟩

/-- A run can be taken on to every later state. -/
theorem Run.later {P : Program C} {m m' : Machine C} {ms : List (Machine C)}
    (h : Run P (m :: ms)) (hm : Later P m m') : ∃ ms', Run P (m' :: ms') ∧ m :: ms <:+ m' :: ms' := by
  induction hm with
  | refl => exact ⟨ms, h, List.suffix_refl _⟩
  | move _ ih =>
    obtain ⟨ms', hrun, hsuffix⟩ := ih
    exact ⟨_, hrun.move, hsuffix.trans (List.suffix_cons _ _)⟩
  | again s _ hcompleted ih =>
    obtain ⟨ms', hrun, hsuffix⟩ := ih
    exact ⟨_, hrun.again s hcompleted, hsuffix.trans (List.suffix_cons _ _)⟩

/-- The state is on the run that goes on from it. -/
theorem Run.after {P : Program C} {m m' : Machine C} {ms : List (Machine C)}
    (h : Run P (m :: ms)) (hm : Later P (m.next P) m') : ∃ ms', Run P (m' :: ms') ∧ m ∈ ms' := by
  obtain ⟨ms', hrun, hsuffix⟩ := h.move.later hm
  refine ⟨ms', hrun, ?_⟩
  rcases List.suffix_cons_iff.mp hsuffix with heq | hsuffix
  · cases heq
    exact .head _
  · exact hsuffix.subset (.tail _ (.head _))

end Machine

namespace Session

open Machine

/-- The state in which performing a step ends is reachable if the state in which it begins is. -/
theorem reachable_perform {P : Program C} {w : World C} {s : Step C}
    (h : Reachable P ⟨w, .task (.step s), []⟩) :
    ∃ m, Reachable P m ∧ perform P w s = (replyOf m, m.world) :=
  ⟨_, h.leads (leads_run P ampleMoves _), rfl⟩

end Session

end Coroutine
