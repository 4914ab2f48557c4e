import Coroutine.Proofs.Cleanup
import Coroutine.Proofs.Endings
import Coroutine.Proofs.Recovery

/-! The order in which generators give up what they own. Main statement: when the cleanup of a
generator is called, its producer can no longer run, its slots are empty, and the guards on its stack
have been released, whatever operations on it their release logic makes. So have those that its entry
procedure captured, unless an exception was thrown into it while they were being released, or they
are being released because its start has failed. -/

namespace Coroutine

variable {C : Type}

/-- How many guards are about to be released. -/
def Control.pending? : Control C → Option Nat
  | task (.release guards) => some guards.length
  | _ => none

namespace Machine

variable {P : Program C} {δ : GeneratorId → Prop} {g : GeneratorId} {captured : Prop}
  {held : HeldGuard C} {m : Machine C} {ms : List (Machine C)}

/-- The next move calls the cleanup of `g`: the payload is not in use. -/
structure Calls (g : GeneratorId) (m : Machine C) : Prop extends Finalizes g m where
  unheld : (m.world.generator g).payloadHeld = false

/-- Cleanups get payloads in no other way. -/
theorem calls_of_cleanups (h : Sound δ m)
    (hcalled : (m.next P).world.cleanups g ≠ m.world.cleanups g) : Calls g m := by
  have hsettled : (m.next P).world.settled g ≠ m.world.settled g := by
    intro heq
    rw [World.cleanups_eq, heq, ← World.cleanups_eq] at hcalled
    exact hcalled rfl
  by_cases hg : g < m.world.generators.size
  · cases booking_next (P := P) h hg with
    | kept _ hsame | appended _ _ _ _ hsame | discarded _ _ _ _ hsame => exact absurd hsame hsettled
    | lost _ _ _ _ _ hleaks =>
      rw [World.cleanups_eq, hleaks, World.cleanups_eq] at hcalled
      exact absurd rfl hcalled
    | paid _ _ hcleanup hheld hcontrol => exact ⟨⟨hcontrol, hcleanup⟩, hheld⟩
  · have hg := Nat.le_of_not_lt hg
    by_cases hg' : g < (m.next P).world.generators.size
    · obtain ⟨_, -, hsame, -⟩ := created_next hg hg'
      exact absurd hsame hsettled
    · exact absurd (absent_next h (Nat.le_of_not_lt hg')).2 hsettled

/-- The entry procedure of `g` is being released because its start has failed for want of memory. -/
def Starving (P : Program C) (g : GeneratorId) (m : Machine C) (ms : List (Machine C)) : Prop :=
  ∃ m₀ ∈ ms, Starves g m₀ ∧ Within P m₀.frames m₀ m

theorem Calls.shape (hcalls : Calls g m) (h : Sound δ m) :
    Phase.handing.Shape (m.world.generator g) := by
  obtain ⟨w, control, fs⟩ := m
  obtain rfl : control = _ := hcalls.control
  have hat : At _ (Coroutine.marks fs) g (w.generator g) := h.shape g
  exact (hat.phase rfl (by decide)).2.2

/-- A generator whose cleanup is called is not being ended a second time, unless an exception was
thrown into it. -/
theorem Calls.not_emptied (hcalls : Calls g m) (honce : Once m ms) (hcalm : ¬ Provoked ms g) :
    .emptied g ∉ Coroutine.marks m.frames := by
  intro hmark
  obtain ⟨w, control, fs⟩ := m
  obtain rfl : control = _ := hcalls.control
  have hcount : (g :: Coroutine.endings fs).count g ≤ 1 := honce.once g hcalm
  rw [List.count_cons_self] at hcount
  refine List.count_eq_zero.mp (Nat.le_zero.mp (Nat.le_of_succ_le_succ hcount)) ?_
  obtain ⟨f, hf, hemptied⟩ := List.mem_filterMap.mp hmark
  refine List.mem_filterMap.mpr ⟨f, hf, ?_⟩
  cases f with
  | emptying k =>
    cases hemptied
    rfl
  | _ => cases hemptied

/-- Nothing that `g` owns is in use below the call of its cleanup. -/
theorem Calls.not_covers (hcalls : Calls g m) (h : Sound δ m)
    (hcaptured : captured → .emptied g ∉ Coroutine.marks m.frames ∧ ¬ Starving P g m ms) :
    ¬ Covers P g captured m ms m.frames := by
  intro hcovers
  cases hcovers with
  | inside hg =>
    obtain ⟨-, hrun, -⟩ := hcalls.shape h
    simp [(h.running_iff_mem_chain g).mpr hg] at hrun
  | emptying hc hmark => exact (hcaptured hc).1 hmark
  | starving m₀ hc hm₀ hstarves _ hwithin => exact (hcaptured hc).2 ⟨m₀, hm₀, hstarves, hwithin⟩

/-- The only place that is left for a guard then is that its release is over. -/
theorem Calls.disposed (hcalls : Calls g m) (h : Sound δ m)
    (hfree : ¬ Covers P g captured m ms m.frames) (hheld : Custody P g captured held m ms) :
    Disposed P held (m :: ms) := by
  obtain ⟨hended, -, hentry⟩ := hcalls.shape h
  rcases hheld.of_not_covers hfree with ⟨-, entry, hsome, -⟩ | ⟨fiber, f, hsome, -⟩ | hdisposed | hlost
  · cases hentry.symm.trans hsome
  · cases hended.fiber.symm.trans hsome
  · exact hdisposed
  · cases hcalls.unheld.symm.trans hlost.payloadHeld

theorem Captures.not_completed (h : Captures P g held m) : ¬ m.Completed := by
  rintro ⟨-, ⟨a, ha⟩ | ⟨u, hu⟩⟩
  · obtain ⟨d, hmake, -⟩ := h
    simp [makes?, ha] at hmake
  · obtain ⟨d, hmake, -⟩ := h
    simp [makes?, hu] at hmake

theorem Holds.not_completed (h : Holds P g held m) : ¬ m.Completed := by
  obtain ⟨c, c', guard, hcontrol, -⟩ := h
  rintro ⟨-, ⟨a, ha⟩ | ⟨u, hu⟩⟩
  · cases hcontrol.symm.trans ha
  · cases hcontrol.symm.trans hu

/-- What is over when the cleanup of `g` is called, which the next move from `m` does. The run made
the moves from `ms` before. -/
structure CalledLast (P : Program C) (g : GeneratorId) (m : Machine C) (ms : List (Machine C)) :
    Prop where
  /-- The producer never runs again. -/
  silent : ∀ m', Later P m m' → .inside g ∉ Coroutine.marks m'.frames
  fiber : ((m.next P).world.generator g).fiber = none
  entry : ((m.next P).world.generator g).entry = none
  slots : ((m.next P).world.generator g).SlotsEmpty
  /-- The guards that were put on the stack have been released, whatever they do when they are
  released. -/
  held : ∀ held, (∃ m₀ ∈ ms, Holds P g held m₀) → Disposed P held (m :: ms)
  /-- So have those that the entry procedure captured, unless an exception was thrown into the
  generator while they were being released, or a start that failed is releasing them. -/
  captured : ¬ Provoked ms g → ¬ Starving P g m ms →
    ∀ held, (∃ m₀ ∈ ms, Captures P g held m₀) → Disposed P held (m :: ms)

/-- The call of a cleanup leaves nothing else with the generator. -/
theorem Calls.next (hcalls : Calls g m) (h : Sound δ m) :
    ((m.next P).world.generator g).fiber = none ∧ ((m.next P).world.generator g).entry = none ∧
      ((m.next P).world.generator g).SlotsEmpty := by
  obtain ⟨hended, -, hentry⟩ := hcalls.shape h
  obtain ⟨w, control, fs⟩ := m
  obtain rfl : control = _ := hcalls.control
  suffices hx : ∃ cleanup payload, (releasePayload w fs g).world.generator g =
      { (w.generator g).emptySlots with cleanup, payload } by
    obtain ⟨cleanup, payload, hx⟩ := hx
    have hx : (next P ⟨w, .task (.releasePayload g), fs⟩).world.generator g = _ := hx
    rw [hx]
    exact ⟨hended.fiber, hentry, ⟨rfl, rfl, rfl⟩⟩
  have hreleases := releases_releasePayload w fs g
  generalize releasePayload w fs g = m' at hreleases
  cases hreleases with
  | nothing _ hb | lost _ _ hb | discarded _ _ _ hb => exact ⟨_, _, hb.self⟩
  | paid _ _ _ hb =>
    rw [world_clean]
    exact ⟨_, _, hb.self⟩

theorem Calls.calledLast (hcalls : Calls g m) (h : Run P (m :: ms)) : CalledLast P g m ms := by
  have hm := h.reachable
  obtain ⟨hfiber, hentry, hslots⟩ := hcalls.next (P := P) hm.sound
  constructor
  case silent => exact (Ends.of_finalizes hm hcalls.toFinalizes).silent
  case fiber => exact hfiber
  case entry => exact hentry
  case slots => exact hslots
  case held =>
    intro held hheld
    exact hcalls.disposed hm.sound (hcalls.not_covers hm.sound False.elim)
      (custody_of_run (fun _ => Holds.not_completed) (fun _ _ => custody_of_holds) h hheld)
  case captured =>
    intro hcalm hfed held hcaptured
    have hemptied := hcalls.not_emptied (once_of_run h) hcalm
    exact hcalls.disposed hm.sound (hcalls.not_covers hm.sound fun _ => ⟨hemptied, hfed⟩)
      (custody_of_run (fun _ => Captures.not_completed) (fun _ _ => custody_of_captures) h hcaptured)

/-- Over every run cleanups are called last. -/
theorem calledLast_of_run (h : Run P (m :: ms)) (hcalls : Calls g m) : CalledLast P g m ms :=
  hcalls.calledLast h

/-- So whenever a move is seen to have given a cleanup its payload, all that is over. -/
theorem calledLast_of_cleanups (h : Run P (m :: ms))
    (hcalled : (m.next P).world.cleanups g ≠ m.world.cleanups g) : CalledLast P g m ms :=
  (calls_of_cleanups h.reachable.sound hcalled).calledLast h

/-- What a session comes to that makes a generator with a captured guard and then makes another
step, after a number of moves. -/
def soon (P : Program C) (guard : Guard C) (entry : C) (s : Step C) (n : Nat) :
    Machine C × List (Machine C) :=
  let made := trail P 1 ⟨{}, .task (.step (.create "g"
    ⟨"g", minStackSize, some [], [guard], [], none, entry⟩)), []⟩ []
  trail P n ⟨made.1.world, .task (.step s), []⟩ (made.1 :: made.2)

theorem run_soon (P : Program C) (guard : Guard C) (entry : C) (s : Step C) (n : Nat) :
    Run P ((soon P guard entry s n).1 :: (soon P guard entry s n).2) :=
  (((Run.start _ _).trail 1).again s ⟨rfl, .inl ⟨_, rfl⟩⟩).trail n

/-- The code of a producer that puts a guard on its stack and returns. -/
def guarding : Program Bool :=
  ⟨fun c => if c then .hold ⟨"held", []⟩ false else .finish (.ok .null)⟩

/-- The cleanup of a producer that has returned is called when the guard on its stack and the one
that it captured have been released. -/
theorem calledLast_of_guarding : ∃ (m : Machine Bool) (ms : List (Machine Bool)),
    Run guarding (m :: ms) ∧ Calls 0 m ∧ CalledLast guarding 0 m ms ∧
      Disposed guarding ⟨0, ⟨"captured", []⟩⟩ (m :: ms) ∧
      Disposed guarding ⟨1, ⟨"held", []⟩⟩ (m :: ms) := by
  have hrun := run_soon guarding ⟨"captured", []⟩ true (.resume "g" none) 19
  generalize hs : soon guarding ⟨"captured", []⟩ true (.resume "g" none) 19 = s at hrun
  have hcalls : Calls 0 s.1 := by
    subst hs
    exact ⟨⟨rfl, rfl⟩, rfl⟩
  have hlast := calledLast_of_run hrun hcalls
  refine ⟨_, _, hrun, hcalls, hlast, hlast.captured ?_ ?_ _ ?_, hlast.held _ ?_⟩
  · have hemptied : s.2.all (fun m => !(Coroutine.marks m.frames).contains (.emptied 0)) = true := by
      subst hs
      rfl
    rintro ⟨m, hm, e, -, hmark⟩
    simpa [hmark] using List.all_eq_true.mp hemptied m hm
  · have hfed : s.2.all (fun m =>
        decide ((m.world.generator 0).stackSize ≤ m.world.stackMemory)) = true := by
      subst hs
      rfl
    rintro ⟨m, hm, hstarves, -⟩
    exact absurd hstarves.memory (Nat.not_lt_of_le (by simpa using List.all_eq_true.mp hfed m hm))
  · subst hs
    exact ⟨_, List.mem_of_getElem? (i := 20) rfl, _, rfl, rfl, .head _⟩
  · subst hs
    exact ⟨_, List.mem_of_getElem? (i := 14) rfl, _, _, _, rfl, rfl, rfl, rfl⟩

/-- The code of a producer that returns at once. -/
def returning : Program Unit := ⟨fun _ => .finish (.ok .null)⟩

/-- A guard that throws an exception into the generator when it is released. -/
def intruder : Guard Unit := ⟨"captured", [.throw "g" (.fresh (.value .unit))]⟩

/-- If the entry procedure of a generator that is closed has captured such a guard, the cleanup is
called while the release logic of the guard still runs. -/
theorem not_disposed_of_intruder : ∃ (m : Machine Unit) (ms : List (Machine Unit)),
    Run returning (m :: ms) ∧ Calls 0 m ∧ (∃ m₀ ∈ ms, Captures returning 0 ⟨0, intruder⟩ m₀) ∧
      .onRelease "captured" [] [] ∈ m.frames ∧ ¬ Disposed returning ⟨0, intruder⟩ (m :: ms) := by
  have hrun := run_soon returning intruder () (.close "g") 9
  refine ⟨_, _, hrun, ⟨⟨rfl, rfl⟩, rfl⟩,
    ⟨_, List.mem_of_getElem? (i := 10) rfl, _, rfl, rfl, .head _⟩,
    List.mem_of_getElem? (i := 3) rfl, ?_⟩
  have hpending : ((soon returning intruder () (.close "g") 9).1 ::
      (soon returning intruder () (.close "g") 9).2).filterMap (·.control.pending?) = [1] := rfl
  rintro ⟨m₀, hm₀, m₁, hm₁, rest, hcontrol, hback, -⟩
  have hfirst : rest.length + 1 ∈ [1] :=
    hpending ▸ List.mem_filterMap.mpr ⟨m₀, hm₀, by rw [hcontrol]; rfl⟩
  have hsecond : rest.length ∈ [1] :=
    hpending ▸ List.mem_filterMap.mpr ⟨m₁, hm₁, by rw [hback]; rfl⟩
  simp only [List.mem_singleton] at hfirst hsecond
  omega

end Machine

end Coroutine
