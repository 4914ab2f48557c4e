import Coroutine.Proofs.Sound.Operation

/-! The end of a generator keeps the invariant: the commit of the last status, the release of the
fiber, of the entry procedure and of the payload, and the drop of the last handle. -/

namespace Coroutine.Machine

variable {C : Type} {δ : GeneratorId → Prop} {w : World C} {fs : List (Frame C)} {g : GeneratorId}

theorem sound_terminated (h : Sound δ ⟨w, .task (.terminated g), fs⟩) :
    Sound δ (terminated w fs g) := by
  obtain ⟨κ, hκ, hfit⟩ := h.order
  have hat : At _ (marks fs) g (w.generator g) := h.shape g
  obtain ⟨hin, hun, hstarted, hrun, hdead, hheld, hslots⟩ := hat.phase rfl (by decide)
  have hlt : g < w.generators.size := w.lt_size_of_started hstarted
  obtain ⟨w', hterminated, hb⟩ := terminated_running fs hstarted.status hlt
  rw [hterminated]
  refine h.change hb rfl (fun _ => rfl) nofun (.task rfl) (.task rfl) (fun _ _ => .rfl) ?_ ?_ ?_
  · intro hle
    refine ⟨.unit, .keeping (κ := κ) ?_ (not_isYield_resultOf _) ?_ ?_ (hκ.mono hle), rfl, ?_⟩
    · rcases hfit with rfl | rfl <;> exact trivial
    · rcases hfit with rfl | rfl <;> exact ⟨nofun, nofun⟩
    · have hended : (w'.fates (.task (.finalize g))).ended g :=
        ⟨hb.size ▸ hlt, .inl (by rw [hb.self])⟩
      rcases hfit with rfl | rfl
      all_goals
        rintro _ ⟨⟩
        exact hended
    · intro hparked
      rw [hb.self] at hparked
      exact absurd hparked (Generator.Dead.not_parked (x := w.generator g) hdead)
  · refine .of_phase rfl (by decide) hin hun ⟨rfl, hrun, .inr ⟨hstarted.entry, hstarted.payload,
      hstarted.cleanup, .inl ⟨hdead, hheld, ?_, rfl⟩⟩⟩
    rcases hslots with ⟨-, hvalue, -⟩ | hhanded
    · exact .inl hvalue
    · exact hhanded.either
  · intro k
    simp [Control.held, Task.held, Frame.held, Generator.held]

theorem sound_abandon (h : Sound δ ⟨w, .task (.abandon g), fs⟩) : Sound δ (abandon w fs g) := by
  obtain ⟨κ, hκ, hunit, hout, hdefied⟩ := h.order
  obtain rfl : κ = .unit := hunit
  have hrest : Rest (marks fs) g (w.generator g) := h.rest rfl
  obtain ⟨hin, hun⟩ := not_or.mp (mt mem_chain_iff.mpr hout)
  obtain ⟨hidle, -⟩ := hrest.idle hin hun
  by_cases hs : (w.generator g).status = .finished
  · rw [abandon_of_finished fs hs]
    refine h.change (.refl g w) rfl id ?_ (.none fun _ => rfl) (.none fun _ => rfl)
      (fun _ _ => .rfl) (fun hle => ⟨.unit, hκ.mono hle, trivial, nofun⟩) hrest
      fun _ => Nat.le_refl _
    rintro _ ⟨⟩
    exact hs
  · obtain ⟨w', habandon, hb⟩ := abandon_of_not_finished fs hs (w.lt_size_of_status hs)
    rw [habandon]
    refine h.change hb rfl (fun _ => rfl) ?_ (.none fun _ => rfl) (.task rfl) (fun _ _ => .rfl) ?_
      (.of_phase rfl (by decide) hin hun hidle.finalizing) fun _ => Nat.le_refl _
    · rintro _ ⟨⟩
      rw [hb.self]
    · intro hle
      refine ⟨.unit, hκ.mono hle, rfl, ?_⟩
      rw [hb.self]
      exact hdefied

theorem sound_finalize (h : Sound δ ⟨w, .task (.finalize g), fs⟩) : Sound δ (finalize w fs g) := by
  obtain ⟨κ, hκ, hunit, hdefied⟩ := h.order
  obtain rfl : κ = .unit := hunit
  have hat : At _ (marks fs) g (w.generator g) := h.shape g
  obtain ⟨hin, hun, hs, hrun, hfinal⟩ := hat.phase rfl (by decide)
  have hempty {w' : World C} {x : Generator C} (hb : w.Becomes g x w')
      (hh : x.handles = (w.generator g).handles) (hf : x.fiber = none) (hended : x.Ended)
      (hrun : x.running = false)
      (hslots : x.entry.isSome → x.SlotsEmpty ∧ (x.cleanup.isSome → x.payloadHeld = false))
      (hδ : x.payloadHeld = true → x.cleanup.isSome → δ g) :
      Sound δ (task w' fs (.releaseEntry g)) := by
    refine h.change hb hh (fun _ => hended.status) nofun (.task rfl) (.task rfl) (fun _ _ => .rfl)
      (fun hle => ⟨_, hκ.mono hle, rfl, hb.self ▸ hδ⟩)
      (.of_phase rfl (by decide) hin hun ⟨hended, hrun, hslots⟩) ?_
    intro k
    simp [Control.held, Task.held, Generator.held, hf]
  rcases hfinal with ⟨hended, hslots, hfree⟩ | ⟨hentry, hpayload, hcleanup, hfiber⟩
  · rw [finalize_of_none fs hended.fiber]
    refine hempty (.refl g w) rfl hended.fiber hended hrun (fun _ => ⟨hslots, hfree⟩) ?_
    intro hheld hc
    simp [hfree hc] at hheld
  have hlt : g < w.generators.size := by
    refine w.lt_size_of_ne Generator.cleanup ?_
    exact Option.isSome_iff_ne_none.mp hcleanup
  -- the payload goes with the cleanup, which is still there
  have hreleased {x : Generator C} (hx : x.cleanup = (w.generator g).cleanup) :
      x.cleanup = none → x.payload = none ∨ x.payloadHeld = true := by
    intro hnone
    simp [← hx, hnone] at hcleanup
  rcases hfiber with ⟨hdead, hheld, -⟩ | ⟨hparked, hheld, hslots⟩
  · obtain ⟨w', hfinalize, hb⟩ := finalize_over fs hdead hlt
    rw [hfinalize]
    exact hempty hb rfl rfl ⟨hs, rfl, hreleased rfl⟩ hrun (by simp [hentry]) (by simp [hheld])
  by_cases hpanicking : panicking fs
  · obtain ⟨w', hfinalize, hb⟩ := finalize_panicking hparked hpanicking hlt
    rw [hfinalize]
    exact hempty hb rfl rfl ⟨hs, rfl, hreleased rfl⟩ hrun (by simp [hentry])
      fun _ _ => hdefied hparked hpanicking
  · obtain ⟨w', size, k, scopes, captures, hf, hfinalize, hb⟩ :=
      finalize_suspended hparked hpanicking hlt
    rw [hfinalize]
    have hout : g ∉ chain fs := by
      rw [mem_chain_iff]
      exact not_or.mpr ⟨hin, hun⟩
    refine h.change hb rfl id nofun (.task rfl) (.none fun _ => rfl) (fun μ hμ => by simp [hμ.2.1])
      (fun hle => ⟨.cancel, .stackFiber_cancel (.destroying (hκ.mono hle) hout), rfl⟩) ?_ ?_
    · refine ⟨fun h => absurd (by simpa using h) hin, fun _ => ?_, fun _ h => absurd (by simp) h⟩
      exact ⟨⟨hs, rfl, hreleased rfl⟩, rfl, { hslots with }, hentry, hpayload, hcleanup, hheld⟩
    · intro k
      simp [Control.held, Frame.held, Generator.held, FiberState.held, hf]

theorem sound_releaseEntry (h : Sound δ ⟨w, .task (.releaseEntry g), fs⟩) :
    Sound δ (releaseEntry w fs g) := by
  obtain ⟨κ, hκ, hunit, hdefied⟩ := h.order
  obtain rfl : κ = .unit := hunit
  have hat : At _ (marks fs) g (w.generator g) := h.shape g
  obtain ⟨hin, hun, hended, hrun, hslots⟩ := hat.phase rfl (by decide)
  cases hentry : (w.generator g).entry with
  | none =>
    rw [releaseEntry_none fs hentry]
    exact h.change (.refl g w) rfl id nofun (.task rfl) (.task rfl) (fun _ _ => .rfl)
      (fun hle => ⟨_, hκ.mono hle, rfl, hdefied⟩)
      (.of_phase rfl (by decide) hin hun ⟨hended, hrun, hentry⟩) fun _ => Nat.le_refl _
  | some entry =>
    have hlt : g < w.generators.size := w.lt_size_of_ne Generator.entry (by rw [hentry]; nofun)
    have hout : g ∉ chain fs := by
      rw [mem_chain_iff]
      exact not_or.mpr ⟨hin, hun⟩
    obtain ⟨w', hrelease, hb⟩ := releaseEntry_some fs hentry hlt
    rw [hrelease]
    refine h.change hb rfl id nofun (.task rfl) (.none fun _ => rfl) (fun μ hμ => by simp [hμ.2.2])
      ?_ ?_ ?_
    · intro hle
      refine ⟨.quiet, .emptying (hκ.mono hle) ⟨hb.size ▸ hlt, .inl ?_⟩ hout, .inr rfl⟩
      rw [hb.self]
      exact hended.status
    · obtain ⟨hempty, hfree⟩ := hslots (by rw [hentry]; rfl)
      refine ⟨fun h => absurd (by simpa using h) hin, fun h => absurd (by simpa using h) hun,
        fun _ _ => ⟨⟨hrun, { hempty with }, fun hs => ?_, fun hs => ?_, fun _ => ⟨{ hended with },
          rfl, hfree⟩⟩, fun _ _ => by simp⟩⟩
      all_goals simp [hended.status] at hs
    · intro k
      simp [Control.held, Task.held, Frame.held, Generator.held]

/-- A cleanup callback goes on with a step, or it is over. -/
theorem clean_eq (fs : List (Frame C)) (todo : List (Step C)) (last : Option String) :
    ∃ c fs', clean w fs todo last = ⟨w, c, fs'⟩ ∧ (∀ g, c.phase? g = none) ∧
      marks fs' = marks fs ∧ (∀ g, c.held g + heldFrames g fs' = heldFrames g fs) ∧
      ∀ F : Fates, Awaits F .unit fs → ∃ κ, Awaits F κ fs' ∧ c.Fits δ w fs' κ := by
  cases todo with
  | cons s rest =>
    refine ⟨_, _, rfl, fun _ => rfl, rfl, fun g => ?_, fun F h => ⟨.reply, .cleaning h, rfl⟩⟩
    simp [Control.held, Task.held, Frame.held]
  | nil =>
    cases last with
    | none =>
      refine ⟨_, _, rfl, fun _ => rfl, rfl, fun g => ?_, fun F h => ⟨.unit, h, trivial, nofun⟩⟩
      simp [Control.held]
    | some message =>
      refine ⟨_, _, rfl, fun _ => rfl, rfl, fun g => ?_,
        fun F h => ⟨.unit, h, nofun, ⟨nofun, nofun⟩, nofun⟩⟩
      simp [Control.held]

theorem sound_releasePayload (h : Sound δ ⟨w, .task (.releasePayload g), fs⟩) :
    Sound δ (releasePayload w fs g) := by
  obtain ⟨κ, hκ, hunit, -⟩ := h.order
  obtain rfl : κ = .unit := hunit
  have hat : At _ (marks fs) g (w.generator g) := h.shape g
  obtain ⟨hin, hun, hended, hrun, hentry⟩ := hat.phase rfl (by decide)
  -- what goes on afterwards is no part of the hand-off, and the generator is idle
  have hidle (payload : Option (List Value))
      (hpayload : payload = none ∨ (w.generator g).payloadHeld = true) :
      Generator.Idle { (w.generator g).emptySlots with payload, cleanup := none } := by
    refine ⟨hrun, ⟨rfl, rfl, rfl⟩, fun hs => ?_, fun hs => ?_, fun _ =>
      ⟨⟨hended.status, hended.fiber, fun _ => hpayload⟩, hentry, nofun⟩⟩
    all_goals cases hended.status.symm.trans hs
  have hgone {w' : World C} (payload : Option (List Value)) {c : Control C} {fs' : List (Frame C)}
      (hb : w.Becomes g { (w.generator g).emptySlots with payload, cleanup := none } w')
      (hpayload : payload = none ∨ (w.generator g).payloadHeld = true)
      (hc : ∀ g, c.phase? g = none) (hmarks : marks fs' = marks fs)
      (hheld : ∀ g, c.held g + heldFrames g fs' = heldFrames g fs)
      (hfits : ∀ F : Fates, Awaits F .unit fs → ∃ κ, Awaits F κ fs' ∧ c.Fits δ w' fs' κ) :
      Sound δ ⟨w', c, fs'⟩ := by
    refine h.change hb rfl id nofun (.task rfl) (.none hc) (fun _ _ => by rw [hmarks])
      (fun hle => hfits _ (hκ.mono hle)) ?_ fun k => ?_
    · rw [hmarks]
      simp only [At, hc]
      exact ⟨fun h => absurd h hin, fun h => absurd h hun,
        fun _ _ => ⟨hidle payload hpayload, fun _ hn => by simp at hn⟩⟩
    · have := hheld k
      simp only [Generator.held, Generator.emptySlots, Control.held, Task.held] at *
      omega
  have hanswer {w' : World C} (payload : Option (List Value))
      (hb : w.Becomes g { (w.generator g).emptySlots with payload, cleanup := none } w')
      (hpayload : payload = none ∨ (w.generator g).payloadHeld = true) :
      Sound δ (answer w' fs .unit) :=
    hgone payload hb hpayload (fun _ => rfl) rfl (fun g => by simp [Control.held])
      fun F hF => ⟨_, hF, trivial, by rintro _ ⟨⟩⟩
  have hreleases := releases_releasePayload w fs g
  generalize releasePayload w fs g = m at hreleases
  cases hreleases with
  | nothing hcleanup hb =>
    refine hanswer (w.generator g).payload ?_ (hended.released hcleanup)
    have heq : (w.generator g).emptySlots =
        { (w.generator g).emptySlots with cleanup := none } := by
      simp [Generator.emptySlots, hcleanup]
    rw [heq] at hb
    exact hb
  | lost _ hheld hb => exact hanswer (w.generator g).payload hb (.inr hheld)
  | discarded _ _ _ hb => exact hanswer none hb (.inl rfl)
  | @paid w' steps last payload _ _ _ hb =>
    obtain ⟨c, fs', heq, hc, hmarks, hheld, hfits⟩ := clean_eq (δ := δ) (w := w') fs steps last
    rw [heq]
    exact hgone none hb (.inl rfl) hc hmarks hheld hfits

section Drop

variable {w' : World C}

/-- The handle that is about to be dropped is one that is held. -/
theorem handleTo_le_of_dropHandle (h : Sound δ ⟨w, .task (.dropHandle g), fs⟩) (k : GeneratorId) :
    w.held k + handleTo k g + heldFrames k fs ≤ (w.generator k).handles :=
  h.owned k

/-- With the last handle a generator that is not finished is closed. -/
theorem sound_dropLast (h : Sound δ ⟨w, .task (.dropHandle g), fs⟩)
    (hκ : Awaits (w.fates (.task (.dropHandle g))) .unit fs)
    (hb : w.Becomes g { w.generator g with handles := (w.generator g).handles - 1 } w')
    (hlast : (w.generator g).handles - 1 = 0) (hs : (w.generator g).status ≠ .finished)
    (hlt : g < w.generators.size) : Sound δ (task w' (.dropping g :: fs) (.close g)) := by
  have howned := handleTo_le_of_dropHandle h
  have hpos := howned g
  rw [handleTo_self] at hpos
  have halike := hb.alike_of_handles
  -- nothing else holds a handle, so control is not inside the producer
  have hout : g ∉ chain fs := by
    rw [mem_chain_iff]
    rintro (hin | hun)
    · rcases hκ.held_of_inside hin with hframes | hdropped
      · omega
      · have hnone : (w.generator g).handles = 0 := (h.dropped g hdropped).2
        omega
    · have hrest : Rest (marks fs) g (w.generator g) := h.rest rfl
      exact hs (hrest.unwound hun).ended.status
  have hle : (w.fates (.task (.dropHandle g))).Le (w'.fates (.task (.close g))) :=
    hb.fates_le id nofun
  refine ⟨⟨.closed g, .dropping (hκ.mono hle) (hle.known g hlt) hout, rfl⟩, ?_, ?_, ?_, ?_⟩
  · intro k
    have hrest : Rest (marks fs) k (w.generator k) := h.rest rfl
    exact (hrest.of_alike (halike k)).of_sameMarks ⟨by simp [task], by simp [task], by simp [task]⟩
  · intro k
    show w'.held k + 0 + (0 + heldFrames k fs) ≤ (w'.generator k).handles
    have := howned k
    have := hb.held_of_handles k
    by_cases hk : k = g
    · subst hk
      rw [hb.self]
      dsimp only
      omega
    · rw [hb.other k hk]
      omega
  · intro k hd
    show k < w'.generators.size ∧ (w'.generator k).handles = 0
    rw [hb.size]
    by_cases hk : k = g
    · rw [hk, hb.self]
      exact ⟨hlt, hlast⟩
    · rw [hb.other k hk]
      exact h.dropped k (by simpa [task, hk] using hd)
  · intro k hltk h0
    show (w'.generator k).status = .finished ∨ _ ∈ marks (.dropping g :: fs) ∨ _
    by_cases hk : k = g
    · exact .inr (.inl (by simp [hk]))
    · have h0 : (w'.generator k).handles = 0 := h0
      rw [hb.other k hk] at h0 ⊢
      rcases h.unheld k (hb.size ▸ hltk) h0 with hs | hd | hab
      · exact .inl hs
      · exact .inr (.inl (by simpa using .inr hd))
      · exact absurd hab nofun

theorem sound_dropShared (h : Sound δ ⟨w, .task (.dropHandle g), fs⟩)
    (hκ : Awaits (w.fates (.task (.dropHandle g))) .unit fs)
    (hb : w.Becomes g { w.generator g with handles := (w.generator g).handles - 1 } w')
    (hlast : (w.generator g).handles - 1 = 0 → (w.generator g).status = .finished) :
    Sound δ (answer w' fs .unit) := by
  have hc : (Control.task (.dropHandle g) : Control C).Neutral := Control.neutral_task rfl nofun
  have hpos := handleTo_le_of_dropHandle h g
  rw [handleTo_self] at hpos
  have hw : w.Alike w' := by
    refine ⟨hb.size, hb.alike_of_handles, ?_, ?_⟩
    · intro k h0
      by_cases hk : k = g
      · rw [hk] at h0
        omega
      · rw [hb.other k hk]
        exact h0
    · intro k h0
      by_cases hk : k = g
      · rw [hk, hb.self] at h0
        rw [hk]
        exact .inr (hlast h0)
      · rw [hb.other k hk] at h0
        exact .inl h0
  refine h.neutral hc hw (fun _ => rfl) rfl ⟨_, hκ.mono (hw.fates_le hc), trivial, nofun⟩ ?_
  intro k
  show w'.held k + 0 + heldFrames k fs + (w.generator k).handles ≤
    w.held k + handleTo k g + heldFrames k fs + (w'.generator k).handles
  have := hb.held_of_handles k
  by_cases hk : k = g
  · subst hk
    rw [handleTo_self, hb.self]
    dsimp only
    omega
  · rw [hb.other k hk]
    omega

theorem sound_dropHandle (h : Sound δ ⟨w, .task (.dropHandle g), fs⟩) :
    Sound δ (dropHandle w fs g) := by
  obtain ⟨κ, hκ, hunit⟩ := h.order
  obtain rfl : κ = .unit := hunit
  have hlt : g < w.generators.size := by
    have hpos := handleTo_le_of_dropHandle h g
    rw [handleTo_self] at hpos
    exact w.lt_size_of_handles (by omega)
  have hb := (World.Becomes.refl g w).modify (φ := fun x => { x with handles := x.handles - 1 })
    (.inl hlt)
  by_cases hlast : (w.generator g).handles - 1 = 0 → (w.generator g).status = .finished
  · rw [dropHandle_shared fs hlast hlt]
    exact sound_dropShared h hκ hb hlast
  · obtain ⟨hlast, hs⟩ := Classical.not_imp.mp hlast
    rw [dropHandle_last fs hlast hs hlt]
    exact sound_dropLast h hκ hb hlast hs hlt

end Drop

end Coroutine.Machine
