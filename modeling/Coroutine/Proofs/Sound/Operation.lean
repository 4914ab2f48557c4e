import Coroutine.Proofs.Sound

/-! The operations that a caller asks for keep the invariant, and so does the start of a
generator. -/

namespace Coroutine.Machine

variable {C : Type} {δ : GeneratorId → Prop} {w w' : World C} {fs fs' : List (Frame C)}
  {g : GeneratorId}

section Outcomes

variable {t : Task C} {a : Answer} {κ : Awaited}

/-- An operation comes back and has changed nothing. -/
theorem sound_back (h : Sound δ ⟨w, .task t, fs⟩) (hc : (Control.task t).Neutral)
    (hκ : Awaits (w.fates (.task t)) κ fs) (hb : w.Becomes g (w.generator g) w') (ha : a.Fits κ)
    (hparked : ∀ k, κ.closing? = some k → (a.IsYield ↔ (w.generator k).Parked)) :
    Sound δ (answer w' fs a) := by
  have hgen (k : GeneratorId) : w'.generator k = w.generator k := by
    by_cases hk : k = g
    · rw [hk, hb.self]
    · exact hb.other k hk
  refine h.change hb rfl id (fun k hk => absurd hk (hc.2 k)) (.none hc.1) (.none fun _ => rfl)
    (fun _ _ => .rfl) ?_ (h.rest (hc.1 g)) ?_
  · intro hle
    refine ⟨κ, hκ.mono hle, ha, ?_⟩
    intro k hk
    rw [hgen]
    exact hparked k hk
  · intro k
    simp only [Control.held]
    omega

/-- An operation ends a generator whose producer is not suspended. Its answer is kept meanwhile. -/
theorem sound_ending (h : Sound δ ⟨w, .task t, fs⟩) (hc : (Control.task t).Neutral)
    (hκ : Awaits (w.fates (.task t)) κ fs) (ha : a.Fits κ) (hyield : ¬ a.IsYield)
    (hopen : κ.IsOpen) (hop : κ.operand? = some g) (hrun : (w.generator g).running = false)
    (hs : (w.generator g).status ≠ .running)
    (hb : w.Becomes g { w.generator g with status := .finished } w') :
    Sound δ (task w' (.keeping a :: fs) (.finalize g)) := by
  have hlt : g < w.generators.size := h.lt_size_of_operand hκ hop
  obtain ⟨hin, hun, hidle⟩ := (h.rest (hc.1 g)).idle_of_not_running hrun
  refine h.change hb rfl (fun _ => rfl) (fun k hk => absurd hk (hc.2 k)) (.none hc.1) (.task rfl)
    (fun _ _ => .rfl) ?_ (.of_phase rfl (by decide) hin hun hidle.finalizing) ?_
  · intro hle
    refine ⟨.unit, .keeping ha hyield hopen ?_ (hκ.mono hle), rfl, ?_⟩
    · intro k hk
      obtain rfl : g = k := Option.some.inj (hop.symm.trans hk)
      exact ⟨hb.size ▸ hlt, .inl (by rw [hb.self])⟩
    · intro hparked
      rw [hb.self] at hparked
      exact absurd hparked (hidle.not_parked hs)
  · intro k
    simp only [Control.held, Task.held, heldFrames_cons, Frame.held, Generator.held]
    omega

/-- Control is to be switched into a producer, with what was put into a slot. -/
theorem sound_handing {v : Option Value} {e : Option Exception}
    (h : Sound δ ⟨w, .task t, fs⟩) (hc : (Control.task t).Neutral)
    (hrun : (w.generator g).running = false) (hs : (w.generator g).status = .running)
    (hb : w.Becomes g { w.generator g with value := v, error := e } w')
    (heither : v = none ∨ e = none) (hmarks : marks fs' = marks fs)
    (hheld : ∀ k, heldFrames k fs' = heldFrames k fs)
    (horder : ∀ F, (w.fates (.task t)).Le F →
      ∃ κ, Awaits F κ fs' ∧ (κ = .progress g ∨ κ = .pursued g)) :
    Sound δ (task w' fs' (.drive g)) := by
  obtain ⟨hin, hun, hidle⟩ := (h.rest (hc.1 g)).idle_of_not_running hrun
  obtain ⟨hstarted, hfiber⟩ := hidle.started hs
  refine h.change hb rfl id (fun k hk => absurd hk (hc.2 k)) (.none hc.1) (.task rfl)
    (fun _ _ => by rw [hmarks]) (horder _) ?_ ?_
  · rw [hmarks]
    exact .of_phase rfl (by decide) hin hun ⟨{ hstarted with }, hidle.running,
      ⟨heither, hidle.slots.outcome⟩, .inr hfiber⟩
  · intro k
    simp only [hheld, Control.held, Task.held, Generator.held]
    omega

end Outcomes

theorem sound_resume {sent : Option Value} (h : Sound δ ⟨w, .task (.resume g sent), fs⟩) :
    Sound δ (resume w fs g sent) := by
  have hc : (Control.task (.resume g sent) : Control C).Neutral := Control.neutral_task rfl nofun
  obtain ⟨κ, hκ, hfit⟩ := h.order
  obtain rfl : κ = .progress g := hfit
  have hlt : g < w.generators.size := h.lt_size_of_operand hκ rfl
  cases hrun : (w.generator g).running with
  | true =>
    rw [resume_of_running fs hrun]
    exact sound_back h hc hκ (.refl g w) trivial nofun
  | false =>
  obtain ⟨hin, hun, hidle⟩ := (h.rest (hc.1 g)).idle_of_not_running hrun
  cases hs : (w.generator g).status with
  | unused =>
    cases sent with
    | none =>
      obtain ⟨w', hresume, hb, -⟩ := resume_unused fs hrun hs
      rw [hresume]
      refine h.change hb rfl id nofun (.none fun _ => rfl) (.task rfl) (fun _ _ => .rfl)
        (fun hle => ⟨_, hκ.mono hle, rfl⟩) ?_ fun _ => Nat.le_refl _
      exact .of_phase rfl (by decide) hin hun ⟨hidle, hs⟩
    | some v =>
      rw [resume_sent fs hrun hs]
      exact sound_back h hc hκ (.refl g w) trivial nofun
  | running =>
    obtain ⟨w', hresume, hb⟩ := resume_running fs hrun hs hidle.slots.value hlt sent
    rw [hresume]
    apply sound_handing h hc hrun hs hb (.inr hidle.slots.error) rfl (fun _ => rfl)
    intro F hle
    exact ⟨_, hκ.mono hle, .inl rfl⟩
  | finished =>
    obtain ⟨w', hresume, hb⟩ := resume_finished fs hrun hs sent
    rw [hresume]
    exact sound_back h hc hκ hb trivial nofun

theorem sound_throwInto {e : Exception} (h : Sound δ ⟨w, .task (.throw g e), fs⟩) :
    Sound δ (throwInto w fs g e) := by
  have hc : (Control.task (.throw g e) : Control C).Neutral := Control.neutral_task rfl nofun
  obtain ⟨κ, hκ, hfit⟩ := h.order
  obtain rfl : κ = .progress g := hfit
  have hlt : g < w.generators.size := h.lt_size_of_operand hκ rfl
  cases hrun : (w.generator g).running with
  | true =>
    rw [throwInto_of_running fs hrun]
    exact sound_back h hc hκ (.refl g w) trivial nofun
  | false =>
  obtain ⟨hin, hun, hidle⟩ := (h.rest (hc.1 g)).idle_of_not_running hrun
  by_cases hs : (w.generator g).status = .running
  · obtain ⟨w', hthrow, hb⟩ := throwInto_running fs hrun hs hidle.slots.error hlt e
    rw [hthrow]
    apply sound_handing h hc hrun hs hb (.inl hidle.slots.value) rfl (fun _ => rfl)
    intro F hle
    exact ⟨_, hκ.mono hle, .inl rfl⟩
  · obtain ⟨w', hthrow, hb⟩ := throwInto_not_running fs hrun hs hlt e
    rw [hthrow]
    exact sound_ending h hc hκ trivial not_false ⟨nofun, nofun⟩ rfl hrun hs hb

theorem sound_close (h : Sound δ ⟨w, .task (.close g), fs⟩) : Sound δ (close w fs g) := by
  have hc : (Control.task (.close g) : Control C).Neutral := Control.neutral_task rfl nofun
  obtain ⟨κ, hκ, hfit⟩ := h.order
  obtain rfl : κ = .closed g := hfit
  have hlt : g < w.generators.size := h.lt_size_of_operand hκ rfl
  have hrest : Rest (marks fs) g (w.generator g) := h.rest rfl
  have hback {r : Except OpError Unit} {w' : World C} (hb : w.Becomes g (w.generator g) w')
      (hx : (w.generator g).running = true ∨ (w.generator g).status = .finished) :
      Sound δ (closed w' fs r) := by
    refine sound_back h hc hκ hb trivial ?_
    rintro _ ⟨⟩
    exact iff_of_false not_false (hrest.not_parked hx)
  cases hrun : (w.generator g).running with
  | true =>
    rw [close_of_running fs hrun]
    exact hback (.refl g w) (.inl hrun)
  | false =>
  obtain ⟨hin, hun, hidle⟩ := hrest.idle_of_not_running hrun
  cases hs : (w.generator g).status with
  | unused =>
    obtain ⟨w', hclose, hb⟩ := close_unused fs hrun hs hlt
    rw [hclose]
    exact sound_ending h hc hκ trivial not_false ⟨nofun, nofun⟩ rfl hrun (by rw [hs]; nofun) hb
  | running =>
    obtain ⟨w', hclose, hb⟩ := close_running fs hrun hs hidle.slots.error hlt
    rw [hclose]
    have hout : g ∉ chain fs := by
      rw [mem_chain_iff]
      exact not_or.mpr ⟨hin, hun⟩
    refine sound_handing h hc hrun hs hb (.inl hidle.slots.value) rfl ?_ ?_
    · intro k
      simp [Frame.held]
    · intro F hle
      exact ⟨.pursued g, .closing (hκ.mono hle) (hle.known g hlt) hout, .inr rfl⟩
  | finished =>
    obtain ⟨w', hclose, hb⟩ := close_finished fs hrun hs
    rw [hclose]
    exact hback hb (.inr hs)

theorem sound_start (h : Sound δ ⟨w, .task (.start g), fs⟩) : Sound δ (start w fs g) := by
  obtain ⟨κ, hκ, hfit⟩ := h.order
  obtain rfl : κ = .progress g := hfit
  have hlt : g < w.generators.size := h.lt_size_of_operand hκ rfl
  have hat : At _ (marks fs) g (w.generator g) := h.shape g
  obtain ⟨hin, hun, hidle, hs⟩ := hat.phase rfl (by decide)
  obtain ⟨-, hheld, hpayload, hcleanup⟩ := hidle.unused hs
  -- a start that does not come about leaves the generator idle
  have hrest {x : Generator C} (hx : x.Idle) (hs : x.status = .unused) : Rest (marks fs) g x := by
    refine ⟨fun h => absurd h hin, fun h => absurd h hun, fun _ _ => ⟨hx, ?_⟩⟩
    intro hfinished
    simp [hs] at hfinished
  by_cases hfails :
      stackSizeInRange (w.generator g).stackSize = false ∨ (w.generator g).entry = none
  · rw [start_failed fs hfails]
    exact h.change (.refl g w) rfl id nofun (.task rfl) (.none fun _ => rfl) (fun _ _ => .rfl)
      (fun hle => ⟨_, hκ.mono hle, trivial, nofun⟩) (hrest hidle hs) fun _ => Nat.le_refl _
  obtain ⟨hrange, hentry⟩ := not_or.mp hfails
  obtain ⟨entry, hentry⟩ := Option.ne_none_iff_exists'.mp hentry
  have hrange : stackSizeInRange (w.generator g).stackSize = true := by simpa using hrange
  by_cases hmemory : w.stackMemory < (w.generator g).stackSize
  · obtain ⟨w', hstart, hb⟩ := start_outOfMemory fs hentry hrange hmemory hlt
    rw [hstart]
    refine h.change hb rfl id nofun (.task rfl) (.none fun _ => rfl) (fun _ _ => .rfl) ?_ ?_ ?_
    · intro hle
      have hcatching : Awaits _ .panic (.catching (startFailure (w.generator g)) :: fs) :=
        .catching (κ := .progress g) trivial ⟨nofun, nofun⟩ rfl (hκ.mono hle)
      exact ⟨.unit, .unwinding (κ := .panic) nofun ⟨nofun, nofun⟩ rfl hcatching, .inl rfl⟩
    · refine hrest ?_ hs
      exact { hidle with
        slots := { hidle.slots with }
        started := fun hrunning => by simp [hs] at hrunning
        finished := fun hfinished => by simp [hs] at hfinished }
    · intro k
      simp [Control.held, Task.held, Frame.held, Generator.held]
  · obtain ⟨w', hstart, hb⟩ := start_unused fs hentry hrange (Nat.le_of_not_lt hmemory) hlt
    rw [hstart]
    refine h.change hb rfl ?_ nofun (.task rfl) (.task rfl) (fun _ _ => .rfl)
      (fun hle => ⟨_, hκ.mono hle, .inl rfl⟩) ?_ ?_
    · intro hfinished
      simp [hs] at hfinished
    · exact .of_phase rfl (by decide) hin hun ⟨⟨rfl, rfl, hpayload, hcleanup⟩, hidle.running,
        ⟨.inl hidle.slots.value, hidle.slots.outcome⟩,
        .inl ⟨⟨_, _, rfl⟩, hheld, { hidle.slots with }⟩⟩
    · intro k
      simp [Control.held, Task.held, Generator.held, FiberState.held]

end Coroutine.Machine
