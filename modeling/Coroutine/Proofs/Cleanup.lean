import Coroutine.Proofs.Booking

/-! The cleanup of a generator. Main statement: over every run the cleanup callback is called at
most once, with the payload as the run made it, and it has been called when the last handle is gone,
unless the producer yielded in answer to a close that was made while frames were unwound. -/

namespace Coroutine

variable {C : Type} {P : Program C} {δ : GeneratorId → Prop}

/-- The payload that the cleanup of `g` got, if the event is that it got one. -/
def Event.payload? (g : GeneratorId) : Event → Option (List Value)
  | cleanup h _ payload => if h = g then some payload else none
  | _ => none

/-- The payloads that the cleanup of `g` got so far, the latest first. -/
def World.cleanups (g : GeneratorId) (w : World C) : List (List Value) :=
  w.history.filterMap (Event.payload? g)

theorem World.cleanups_eq (g : GeneratorId) (w : World C) :
    w.cleanups g = (w.settled g).filterMap (Event.payload? g) := by
  rw [cleanups, settled, List.filterMap_filter]
  congr 1
  funext e
  cases e with
  | cleanup h name payload => by_cases hh : h = g <;> simp [Event.settles, Event.payload?, hh]
  | _ => simp [Event.payload?]

/-- The generator that a mark is about. -/
def Mark.generator : Mark → GeneratorId
  | inside g | unwound g | emptied g | dropped g => g

namespace Machine

/-- In one of these states the producer of `g` defied a close. -/
def Defied (ms : List (Machine C)) (g : GeneratorId) : Prop := ∃ m ∈ ms, m.Defies g

/-- The last handle of `g` has been dropped, and nothing is left to be done about it. -/
structure Gone (g : GeneratorId) (m : Machine C) : Prop where
  known : g < m.world.generators.size
  unheld : (m.world.generator g).handles = 0
  marks : ∀ μ ∈ marks m.frames, μ.generator ≠ g
  phase : m.control.phase? g = none
  kept : m.control ≠ .task (.abandon g)

/-- How the account of `g` stands if its payload is `p`. It is pending until the payload is
released. Then the cleanup gets the payload, unless the producer has defied a close. -/
inductive Balance (g : GeneratorId) (p : List Value) (defied : Prop) :
    Account C → List Event → Prop
  | pending (steps : List (Step C)) (last : Option String) :
      Balance g p defied ⟨false, some p, some (.callback steps last)⟩ []
  | paid (name : String) : ¬ defied → Balance g p defied ⟨false, none, none⟩ [.cleanup g name p]
  | lost (name : String) (payload : Option (List Value)) : defied →
      Balance g p defied ⟨false, payload, none⟩ [.logged (.leaksPayload g name)]

/-- The payload of `g` is about to be lost: its producer has just defied a close, and is given up
step by step. -/
inductive Doomed (g : GeneratorId) : Machine C → Prop
  | defiant {m : Machine C} : m.Defies g → Doomed g m
  | abandoned {w : World C} {fs : List (Frame C)} : (w.generator g).Parked → panicking fs →
      Doomed g ⟨w, .task (.abandon g), fs⟩
  | finalized {w : World C} {fs : List (Frame C)} : (w.generator g).Parked → panicking fs →
      Doomed g ⟨w, .task (.finalize g), fs⟩
  | emptied {w : World C} {fs : List (Frame C)} : (w.generator g).entry = none →
      (w.generator g).payloadHeld = true → Doomed g ⟨w, .task (.releaseEntry g), fs⟩
  | handed {w : World C} {fs : List (Frame C)} : (w.generator g).payloadHeld = true →
      Doomed g ⟨w, .task (.releasePayload g), fs⟩

variable {m : Machine C} {g : GeneratorId}

/-- A producer that yielded in answer to a close is suspended. -/
theorem parked_of_yielded {w : World C} {v : Value} {fs : List (Frame C)}
    (h : Sound δ ⟨w, .answer (.progress (.ok (.yielded v))), .closing g :: fs⟩) :
    (w.generator g).Parked := by
  obtain ⟨κ, hκ, -, hparked⟩ := h.order
  cases hκ with
  | closing => exact (hparked g rfl).mp trivial

theorem parked_of_defies (h : Sound δ m) (hm : m.Defies g) : (m.world.generator g).Parked := by
  obtain ⟨w, control, fs⟩ := m
  obtain ⟨v, rest, hcontrol, hframes, -⟩ := hm
  obtain rfl : control = _ := hcontrol
  obtain rfl : fs = _ := hframes
  exact parked_of_yielded h

theorem Doomed.next (h : Sound δ m) (hm : Doomed g m) :
    Doomed g (m.next P) ∨ ((m.next P).world.generator g).cleanup = none := by
  cases hm with
  | defiant hdefies =>
    have hparked := parked_of_defies h hdefies
    obtain ⟨w, control, fs⟩ := m
    obtain ⟨v, rest, hcontrol, hframes, hpanicking⟩ := hdefies
    obtain rfl : control = _ := hcontrol
    obtain rfl : fs = _ := hframes
    exact .inl (.abandoned hparked hpanicking)
  | @abandoned w fs hparked hpanicking =>
    have hrest : Rest (Coroutine.marks fs) g (w.generator g) := h.rest rfl
    obtain ⟨-, hs⟩ := hrest.idle_of_parked hparked
    obtain ⟨w', habandon, hb⟩ :=
      abandon_of_not_finished fs (by rw [hs]; nofun) (w.lt_size_of_parked hparked)
    refine .inl ?_
    show Doomed g (abandon w fs g)
    rw [habandon]
    refine .finalized ?_ hpanicking
    rw [hb.self]
    exact hparked
  | @finalized w fs hparked hpanicking =>
    have hat : At _ (Coroutine.marks fs) g (w.generator g) := h.shape g
    obtain ⟨-, -, -, -, hfinal⟩ := hat.phase rfl (by decide)
    obtain ⟨w', hfinalize, hb⟩ :=
      finalize_panicking hparked hpanicking (w.lt_size_of_parked hparked)
    refine .inl ?_
    show Doomed g (finalize w fs g)
    rw [hfinalize]
    rcases hfinal with ⟨hended, -⟩ | ⟨hentry, -, -, ⟨hdead, -⟩ | ⟨-, hheld, -⟩⟩
    · exact absurd hparked (Generator.not_parked_of_fiber hended.fiber)
    · exact absurd hparked hdead.not_parked
    · exact .emptied (by rw [hb.self]; exact hentry) (by rw [hb.self]; exact hheld)
  | @emptied w fs hentry hheld =>
    refine .inl ?_
    show Doomed g (releaseEntry w fs g)
    rw [releaseEntry_none fs hentry]
    exact .handed hheld
  | @handed w fs hheld =>
    refine .inr ?_
    show ((releasePayload w fs g).world.generator g).cleanup = none
    have hreleases := releases_releasePayload w fs g
    generalize releasePayload w fs g = m' at hreleases
    cases hreleases with
    | @nothing w' hcleanup hb =>
      show (w'.generator g).cleanup = none
      rw [hb.self]
      exact hcleanup
    | @lost w' _ _ _ hb =>
      show (w'.generator g).cleanup = none
      rw [hb.self]
    | discarded _ hfree | paid _ hfree => simp [hfree] at hheld

theorem Doomed.payloadHeld (hm : Doomed g m) (hcontrol : m.control = .task (.releasePayload g)) :
    (m.world.generator g).payloadHeld = true := by
  cases hm with
  | defiant hdefies =>
    obtain ⟨v, fs, hanswer, -⟩ := hdefies
    cases hcontrol.symm.trans hanswer
  | handed hheld => exact hheld
  | abandoned | finalized | emptied => cases hcontrol

theorem Doomed.not_completed (hm : Doomed g m) : ¬ m.Completed := by
  rintro ⟨hfs, hcontrol⟩
  cases hm with
  | defiant hdefies =>
    obtain ⟨v, fs, -, hframes, -⟩ := hdefies
    cases hfs.symm.trans hframes
  | abandoned | finalized | emptied | handed => rcases hcontrol with ⟨_, h⟩ | ⟨_, h⟩ <;> cases h

/-- A payload that is released while it is in use is that of a producer that defied a close. -/
theorem defied_of_release (h : Sound δ m) (hcontrol : m.control = .task (.releasePayload g))
    (hc : (m.world.generator g).cleanup.isSome) (hheld : (m.world.generator g).payloadHeld = true) :
    δ g := by
  obtain ⟨κ, -, hfits⟩ := h.order
  rw [hcontrol] at hfits
  exact hfits.2 hheld hc

/-- What the runs of the machine keep: every account stands as it should. -/
structure Accounted (P : Program C) (m : Machine C) (ms : List (Machine C)) : Prop where
  sound : Sound (Defied (m :: ms)) m
  balance : ∀ g, g < m.world.generators.size → (m.world.generator g).plain = false →
    Balance g (payloadOf P g ms) (Defied (m :: ms) g) (m.world.generator g).account
      (m.world.settled g)
  doomed : ∀ g, g < m.world.generators.size → (m.world.generator g).plain = false →
    Defied (m :: ms) g → Doomed g m ∨ (m.world.generator g).cleanup = none
  absent : ∀ g, m.world.generators.size ≤ g →
    payloadOf P g ms = [] ∧ m.world.settled g = [] ∧ ¬ Defied (m :: ms) g

variable {ms : List (Machine C)}

theorem Defied.cases {m' : Machine C} (h : Defied (m' :: ms) g) : m'.Defies g ∨ Defied ms g := by
  obtain ⟨k, hk, hdefies⟩ := h
  rcases List.mem_cons.mp hk with rfl | hk
  · exact .inl hdefies
  · exact .inr ⟨k, hk, hdefies⟩

theorem accounted_start (P : Program C) (stackMemory : Nat) (s : Step C) :
    Accounted P ⟨{ stackMemory }, .task (.step s), []⟩ [] where
  sound := sound_start_session stackMemory s
  balance g hg := absurd hg (Nat.not_lt_zero g)
  doomed g hg := absurd hg (Nat.not_lt_zero g)
  absent g _ := by
    refine ⟨rfl, rfl, fun hdefied => ?_⟩
    rcases hdefied.cases with ⟨_, _, hcontrol, -⟩ | ⟨_, hmem, -⟩
    · cases hcontrol
    · cases hmem

theorem Balance.of_iff {p : List Value} {D D' : Prop} {a : Account C} {es : List Event}
    (h : Balance g p D a es) (hD : a.cleanup = none → (D ↔ D')) : Balance g p D' a es := by
  cases h with
  | pending steps last => exact .pending steps last
  | paid name hno => exact .paid name (mt (hD rfl).mpr hno)
  | lost name payload hdefied => exact .lost name payload ((hD rfl).mp hdefied)

theorem Balance.of_cleanup {p : List Value} {D : Prop} {a : Account C} {es : List Event}
    (h : Balance g p D a es) (hc : a.cleanup.isSome) :
    ∃ steps last, a = ⟨false, some p, some (.callback steps last)⟩ ∧ es = [] := by
  cases h with
  | pending steps last => exact ⟨steps, last, rfl, rfl⟩
  | paid | lost => cases hc

/-- The balance of an account after a move. -/
theorem Booking.balance {w : World C} {p : List Value} {D : Prop} (h : Booking P g m w)
    (hplain : (m.world.generator g).plain = false)
    (hbalance : Balance g p D (m.world.generator g).account (m.world.settled g))
    (hpaid : m.control = .task (.releasePayload g) → (m.world.generator g).cleanup.isSome →
      (m.world.generator g).payloadHeld = false → ¬ D)
    (hlost : m.control = .task (.releasePayload g) → (m.world.generator g).cleanup.isSome →
      (m.world.generator g).payloadHeld = true → D) :
    Balance g (p ++ m.contributes P g) D (w.generator g).account (w.settled g) := by
  cases h with
  | kept haccount hsettled hcontributes =>
    rw [haccount, hsettled, hcontributes hplain, List.append_nil]
    exact hbalance
  | appended v hc hcontributes haccount hsettled =>
    obtain ⟨steps, last, hopen, hnone⟩ := hbalance.of_cleanup hc
    have hpayload : (m.world.generator g).payload = some p := congrArg Account.payload hopen
    rw [haccount, hsettled, hcontributes, hopen, hnone, hpayload]
    exact .pending steps last
  | lost hc hheld hcontrol hcontributes haccount hsettled =>
    obtain ⟨steps, last, hopen, hnone⟩ := hbalance.of_cleanup hc
    rw [haccount, hsettled, hcontributes, hopen, hnone]
    exact .lost _ _ (hlost hcontrol hc hheld)
  | discarded hc hno hcontributes haccount hsettled =>
    obtain ⟨steps, last, hopen, hnone⟩ := hbalance.of_cleanup (Option.isSome_of_eq_some hc)
    have hpayload : (m.world.generator g).payload = some p := congrArg Account.payload hopen
    have hcallback := hc.symm.trans (congrArg Account.cleanup hopen)
    exact absurd (Option.some.inj hcallback) (hno (Option.isSome_of_eq_some hpayload) steps last)
  | paid payload hpayload hc hheld hcontrol hcontributes haccount hsettled =>
    obtain ⟨steps, last, hopen, hnone⟩ := hbalance.of_cleanup hc
    obtain rfl := Option.some.inj (hpayload.symm.trans (congrArg Account.payload hopen))
    rw [haccount, hsettled, hcontributes, hplain, hnone, List.append_nil]
    exact .paid _ (hpaid hcontrol hc hheld)

theorem cleanup_of_defies (h : Sound δ m) (hm : m.Defies g) :
    (m.world.generator g).cleanup.isSome := by
  have hphase : m.control.phase? g = none := by
    obtain ⟨v, fs, hcontrol, -⟩ := hm
    rw [hcontrol]
    rfl
  obtain ⟨hidle, hs⟩ := (h.rest hphase).idle_of_parked (parked_of_defies h hm)
  exact (hidle.started hs).1.cleanup

theorem accounted_next (h : Accounted P m ms) : Accounted P (m.next P) (m :: ms) := by
  have hdefies (g : GeneratorId) : m.Defies g → Defied (m :: ms) g := fun hm => ⟨m, .head _, hm⟩
  have hle (g : GeneratorId) : Defied (m :: ms) g → Defied (m.next P :: m :: ms) g :=
    fun ⟨k, hk, hdefies⟩ => ⟨k, .tail _ hk, hdefies⟩
  have hsound : Sound (Defied (m.next P :: m :: ms)) (m.next P) :=
    (sound_next h.sound hdefies).mono hle
  refine ⟨hsound, ?_, ?_, ?_⟩
  · intro g hg' hplain'
    by_cases hg : g < m.world.generators.size
    · have hbooking : Booking P g m (m.next P).world := booking_next h.sound hg
      have hplain := hbooking.plain ▸ hplain'
      have hpaid (hcontrol : m.control = .task (.releasePayload g))
          (hc : (m.world.generator g).cleanup.isSome)
          (hheld : (m.world.generator g).payloadHeld = false) : ¬ Defied (m :: ms) g := by
        intro hdefied
        rcases h.doomed g hg hplain hdefied with hdoomed | hnone
        · simp [hdoomed.payloadHeld hcontrol] at hheld
        · simp [hnone] at hc
      have hbalance := hbooking.balance hplain (h.balance g hg hplain) hpaid
        (defied_of_release h.sound)
      -- the move itself defies no close if the cleanup is gone
      apply hbalance.of_iff
      intro hnone
      refine ⟨hle g, ?_⟩
      intro hdefied
      rcases hdefied.cases with hdefies | hdefied
      · have hc := cleanup_of_defies hsound hdefies
        simp [show ((m.next P).world.generator g).cleanup = none from hnone] at hc
      · exact hdefied
    · obtain ⟨d, haccount, hsettled, hcontributes⟩ := created_next (Nat.le_of_not_lt hg) hg'
      obtain ⟨hpayload, hnone, -⟩ := h.absent g (Nat.le_of_not_lt hg)
      have hcontext : d.context.isNone = false := by
        rw [← hplain']
        exact (congrArg Account.plain haccount).symm
      rw [haccount, hsettled, hnone, payloadOf, hpayload, hcontributes]
      simp only [openAccount, hcontext]
      exact .pending ..
  · intro g hg' hplain' hdefied
    rcases hdefied.cases with hdefies | hdefied
    · exact .inl (.defiant hdefies)
    by_cases hg : g < m.world.generators.size
    · have hbooking : Booking P g m (m.next P).world := booking_next h.sound hg
      rcases h.doomed g hg (hbooking.plain ▸ hplain') hdefied with hdoomed | hnone
      · exact hdoomed.next h.sound
      · exact .inr (hbooking.cleanup hnone)
    · obtain ⟨-, -, hno⟩ := h.absent g (Nat.le_of_not_lt hg)
      exact absurd hdefied hno
  · intro g hg'
    obtain ⟨hpayload, hnone, hno⟩ := h.absent g (Nat.le_trans (size_le_next m) hg')
    obtain ⟨hcontributes, hsettled⟩ := absent_next h.sound hg'
    refine ⟨by rw [payloadOf, hpayload, hcontributes, List.append_nil], hsettled.trans hnone, ?_⟩
    intro hdefied
    rcases hdefied.cases with hdefies | hdefied
    · have hlt := World.lt_size_of_parked (parked_of_defies hsound hdefies)
      exact absurd hlt (Nat.not_lt_of_le hg')
    · exact hno hdefied

theorem accounted_again (h : Accounted P m ms) (hm : m.Completed) (s : Step C) :
    Accounted P ⟨m.world, .task (.step s), []⟩ (m :: ms) := by
  have hnone (g : GeneratorId) : m.contributes P g = [] := by
    rcases hm.2 with ⟨a, ha⟩ | ⟨u, hu⟩
    · simp [contributes, makes?, appends?, ha]
    · simp [contributes, makes?, appends?, hu]
  have hdefied (g : GeneratorId) :
      Defied (⟨m.world, .task (.step s), []⟩ :: m :: ms) g ↔ Defied (m :: ms) g := by
    constructor
    · intro hdefied
      refine hdefied.cases.resolve_left ?_
      rintro ⟨v, fs, hcontrol, -⟩
      cases hcontrol
    · rintro ⟨k, hk, hdefies⟩
      exact ⟨k, .tail _ hk, hdefies⟩
  refine ⟨(sound_again h.sound hm s).mono fun g => (hdefied g).mpr, ?_, ?_, ?_⟩
  · intro g hg hplain
    rw [payloadOf, hnone, List.append_nil]
    exact (h.balance g hg hplain).of_iff fun _ => (hdefied g).symm
  · intro g hg hplain hd
    rcases h.doomed g hg hplain ((hdefied g).mp hd) with hdoomed | hgone
    · exact absurd hm hdoomed.not_completed
    · exact .inr hgone
  · intro g hg
    rw [payloadOf, hnone, List.append_nil, hdefied]
    exact h.absent g hg

theorem accounted_of_run (h : Run P (m :: ms)) : Accounted P m ms := by
  generalize hrun : m :: ms = run at h
  induction h generalizing m ms with
  | start stackMemory s =>
    cases hrun
    exact accounted_start P stackMemory s
  | move _ ih =>
    cases hrun
    exact accounted_next (ih rfl)
  | again s _ hm ih =>
    cases hrun
    exact accounted_again (ih rfl) hm s

theorem plain_of_later {m' : Machine C} (h : Reachable P m) (hm : Later P m m')
    (hg : g < m.world.generators.size) :
    g < m'.world.generators.size ∧
      (m'.world.generator g).plain = (m.world.generator g).plain := by
  induction hm with
  | refl => exact ⟨hg, rfl⟩
  | @move k hk ih =>
    have hbooking : Booking P g k (k.next P).world := booking_next (h.later hk).sound ih.1
    exact ⟨Nat.lt_of_lt_of_le ih.1 (size_le_next k), hbooking.plain.trans ih.2⟩
  | again s _ _ ih => exact ih

/-- As long as the cleanup is there it has not got the payload, which is as the run made it. -/
theorem pending_of_run (h : Run P (m :: ms)) (hc : (m.world.generator g).cleanup.isSome)
    (hplain : (m.world.generator g).plain = false) :
    ∃ steps last, (m.world.generator g).account =
      ⟨false, some (payloadOf P g ms), some (.callback steps last)⟩ ∧ m.world.settled g = [] := by
  have hlt : g < m.world.generators.size :=
    m.world.lt_size_of_ne Generator.cleanup (Option.isSome_iff_ne_none.mp hc)
  exact ((accounted_of_run h).balance g hlt hplain).of_cleanup hc

/-- A cleanup that is gone is not called any more. -/
theorem cleanups_next (h : Sound δ m) (hg : g < m.world.generators.size)
    (hnone : (m.world.generator g).cleanup = none) :
    (m.next P).world.cleanups g = m.world.cleanups g := by
  rw [World.cleanups_eq, World.cleanups_eq]
  cases booking_next (P := P) h hg with
  | kept _ hsettled => rw [hsettled]
  | appended _ hc | lost hc | paid _ _ hc => simp [hnone] at hc
  | discarded hc => simp [hnone] at hc

theorem cleanups_of_later {m' : Machine C} (h : Reachable P m) (hm : Later P m m')
    (hg : g < m.world.generators.size) (hnone : (m.world.generator g).cleanup = none) :
    m'.world.cleanups g = m.world.cleanups g := by
  induction hm with
  | refl => rfl
  | @move k hk ih =>
    obtain ⟨hlt, hgone⟩ := cleanup_of_later h hk hg hnone
    exact (cleanups_next (h.later hk).sound hlt hgone).trans ih
  | again s _ _ ih => exact ih

theorem finished_of_cleanup (h : Sound δ m) (hc : (m.world.generator g).cleanup = none) :
    (m.world.generator g).status = .finished := by
  have hidle (hidle : (m.world.generator g).Idle) : (m.world.generator g).status = .finished := by
    cases hs : (m.world.generator g).status with
    | unused => simpa [hc] using (hidle.unused hs).2.2.2
    | running => simpa [hc] using (hidle.started hs).1.cleanup
    | finished => rfl
  have hstarted (hstarted : (m.world.generator g).Started) :
      (m.world.generator g).status = .finished := by
    simpa [hc] using hstarted.cleanup
  cases hphase : m.control.phase? g with
  | none =>
    have hrest := h.rest hphase
    by_cases hin : .inside g ∈ Coroutine.marks m.frames
    · exact hstarted (hrest.inside hin).1.started
    by_cases hun : .unwound g ∈ Coroutine.marks m.frames
    · exact (hrest.unwound hun).ended.status
    · exact hidle (hrest.idle hin hun).1
  | some phase =>
    obtain ⟨w, control, fs⟩ := m
    obtain ⟨t, rfl, ht⟩ := Control.task_of_phase? hphase
    have hat : At _ (Coroutine.marks fs) g (w.generator g) := h.shape g
    cases phase with
    | waking =>
      simp only [At, hphase] at hat
      exact hstarted hat.2.1.started
    | starting => exact hidle (hat.phase ht (by decide)).2.2.1
    | driven | switchedOut | terminated => exact hstarted (hat.phase ht (by decide)).2.2.1
    | finalizing => exact (hat.phase ht (by decide)).2.2.1
    | emptying | handing => exact (hat.phase ht (by decide)).2.2.1.status

theorem Gone.not_mem (hgone : Gone g m) {μ : Mark} (hμ : μ.generator = g) :
    μ ∉ Coroutine.marks m.frames :=
  fun hmem => hgone.marks μ hmem hμ

theorem Gone.status (hgone : Gone g m) (h : Sound δ m) :
    (m.world.generator g).status = .finished := by
  rcases h.unheld g hgone.known hgone.unheld with hs | hdropped | hkept
  · exact hs
  · exact absurd hdropped (hgone.not_mem rfl)
  · exact absurd hkept hgone.kept

/-- Once nothing is left to be done about a generator its cleanup is gone. -/
theorem Gone.cleanup (hgone : Gone g m) (h : Sound δ m) : (m.world.generator g).cleanup = none := by
  obtain ⟨-, hpending⟩ := (h.rest hgone.phase).idle (hgone.not_mem rfl) (hgone.not_mem rfl)
  by_contra hc
  exact hgone.not_mem rfl (hpending (hgone.status h) (Option.isSome_iff_ne_none.mpr hc))

/-- What the runs of the machine keep of the cleanup of `g`, which has a payload. The run has come
to `m`, and made the moves from `ms` before. -/
structure CleanedUp (P : Program C) (g : GeneratorId) (m : Machine C) (ms : List (Machine C)) :
    Prop where
  /-- The cleanup was never called, or once with the payload as the producer left it. -/
  once : m.world.cleanups g = [] ∨ m.world.cleanups g = [payloadOf P g ms]
  /-- It is not called before the generator has ended. -/
  late : m.world.cleanups g ≠ [] → (m.world.generator g).status = .finished
  /-- It is not called if the producer yields in answer to a close that is made while frames are
  unwound. -/
  defied : Defied (m :: ms) g → m.world.cleanups g = []
  /-- Else it has been called when the last handle has been dropped. -/
  gone : m.Gone g → ¬ Defied (m :: ms) g → m.world.cleanups g = [payloadOf P g ms]

/-- Over every run the cleanup of a generator with a payload is called exactly once. -/
theorem cleanedUp_of_run (h : Run P (m :: ms)) (hg : g < m.world.generators.size)
    (hplain : (m.world.generator g).plain = false) : CleanedUp P g m ms := by
  have haccounted := accounted_of_run h
  have hbalance := haccounted.balance g hg hplain
  have hcleanups := m.world.cleanups_eq g
  have hcleanup : (m.world.generator g).account.cleanup = (m.world.generator g).cleanup := rfl
  generalize (m.world.generator g).account = a, m.world.settled g = es at *
  cases hbalance with
  | pending steps last =>
    have hnone : m.world.cleanups g = [] := hcleanups
    refine ⟨.inl hnone, fun hsome => absurd hnone hsome, fun _ => hnone, ?_⟩
    intro hgone
    simp [hgone.cleanup haccounted.sound] at hcleanup
  | paid name hno =>
    have hone : m.world.cleanups g = [payloadOf P g ms] := by simpa [Event.payload?] using hcleanups
    exact ⟨.inr hone, fun _ => finished_of_cleanup haccounted.sound hcleanup.symm,
      fun hdefied => absurd hdefied hno, fun _ _ => hone⟩
  | lost name payload hdefied =>
    have hnone : m.world.cleanups g = [] := hcleanups
    exact ⟨.inl hnone, fun hsome => absurd hnone hsome, fun _ => hnone,
      fun _ hno => absurd hdefied hno⟩

/-- The code of a producer that appends to its payload and returns. -/
def appending : Program Bool :=
  ⟨fun c => if c then .append .null false else .finish (.ok .null)⟩

/-- The cleanup of a producer that has returned got the payload with what was appended. -/
theorem cleanedUp_of_appending : ∃ (m : Machine Bool) (ms : List (Machine Bool)),
    CleanedUp appending 0 m ms ∧ m.Gone 0 ∧ m.world.cleanups 0 = [[.null]] := by
  have hcreate : Reachable appending
      ⟨{ stackMemory := minStackSize },
        .task (.step (.create "g" ⟨"g", minStackSize, some [], [], [], none, true⟩)), []⟩ :=
    .start _ _
  have hresume := (hcreate.leads (leads_run appending 2 _)).again (.resume "g" none)
    ⟨rfl, .inl ⟨_, rfl⟩⟩
  have hdrop := (hresume.leads (leads_run appending 20 _)).again (.drop "g") ⟨rfl, .inl ⟨_, rfl⟩⟩
  obtain ⟨ms, hrun⟩ := reachable_iff_run.mp (hdrop.leads (leads_run appending 3 _))
  exact ⟨_, ms, cleanedUp_of_run hrun (by decide) rfl, ⟨by decide, rfl, nofun, rfl, nofun⟩, rfl⟩

end Machine

end Coroutine
