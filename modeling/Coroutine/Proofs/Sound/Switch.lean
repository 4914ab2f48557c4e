import Coroutine.Proofs.Sound

/-! The switches into a producer and out of it keep the invariant. -/

namespace Coroutine.Machine

variable {C : Type} {δ : GeneratorId → Prop} {w : World C} {fs : List (Frame C)} {g : GeneratorId}

theorem sound_drive (h : Sound δ ⟨w, .task (.drive g), fs⟩) : Sound δ (drive w fs g) := by
  obtain ⟨κ, hκ, hfit⟩ := h.order
  have hat : At _ (marks fs) g (w.generator g) := h.shape g
  obtain ⟨hin, hun, hstarted, hrun, hhanded, hfiber⟩ := hat.phase rfl (by decide)
  have hlt : g < w.generators.size := w.lt_size_of_started hstarted
  have hout : g ∉ chain fs := by
    rw [mem_chain_iff]
    exact not_or.mpr ⟨hin, hun⟩
  rcases hfiber with ⟨⟨size, entry, hf⟩, hheld, hslots⟩ | ⟨⟨size, k, scopes, captures, hf⟩, hheld⟩ |
    ⟨⟨size, hf⟩, hheld⟩
  · obtain ⟨w', hdrive, hb⟩ := drive_fresh fs hf hstarted.payload hlt
    rw [hdrive]
    refine h.change hb rfl id nofun (.task rfl) (.none fun _ => rfl) (fun μ hμ => by simp [hμ.1])
      (fun hle => ⟨.code, .closure (.driving (hκ.mono hle) hfit hout), rfl⟩) ?_ ?_
    · refine ⟨fun _ => ⟨⟨{ hstarted with }, rfl, rfl, ⟨_, rfl⟩⟩, { hslots with }⟩, ?_,
        fun h => absurd (by simp) h⟩
      intro h
      exact absurd (by simpa using h) hun
    · intro k
      simp [Control.held, Frame.held, Generator.held, FiberState.held]
  · obtain ⟨w', hdrive, hb⟩ := drive_suspended fs hf hlt
    rw [hdrive]
    refine h.change hb rfl id nofun (.task rfl) (.task rfl) (fun μ hμ => by simp [hμ.1]) ?_ ?_ ?_
    · intro hle
      have hproducer : producer? (stackFiber scopes captures (.driving g :: fs)) = some g :=
        producer?_eq_some_iff.mpr ⟨_, _, _, rfl⟩
      exact ⟨.code, Awaits.stackFiber_iff.mpr (.driving (hκ.mono hle) hfit hout), rfl, hproducer⟩
    · exact At.waking_iff.mpr ⟨by simp, ⟨{ hstarted with }, rfl, hheld, ⟨_, rfl⟩⟩,
        { hhanded with }⟩
    · intro k
      simp [Control.held, Task.held, Frame.held, Generator.held, FiberState.held, hf]
  · obtain ⟨w', hdrive, hb⟩ := drive_over fs hf
    rw [hdrive]
    refine h.change hb rfl id nofun (.task rfl) (.task rfl) (fun _ _ => .rfl)
      (fun hle => ⟨_, hκ.mono hle, hfit⟩) ?_ fun _ => Nat.le_refl _
    exact .of_phase rfl (by decide) hin hun ⟨hstarted, hrun, ⟨_, hf⟩, hheld, .inr hhanded⟩

theorem sound_wake {k : Except Exception (Option Value) → C}
    (h : Sound δ ⟨w, .task (.wake g k), fs⟩) : Sound δ (wake w fs g k) := by
  obtain ⟨κ, hκ, hcode, hproducer⟩ := h.order
  obtain rfl : κ = .code := hcode
  have hat : At _ (marks fs) g (w.generator g) := h.shape g
  obtain ⟨hin, hinside, hhanded⟩ := At.waking_iff.mp hat
  have hlt : g < w.generators.size := w.lt_size_of_started hinside.started
  have hun : .unwound g ∉ marks fs := by
    obtain ⟨scopes, captures, rest, _, rfl, -, -, hout⟩ := hκ.of_producer hproducer
    intro hmem
    exact hout (mem_chain_iff.mpr (.inr (by simpa using hmem)))
  have hcode {w' : World C} {x : Generator C} {c : C} (hb : w.Becomes g x w')
      (hh : x.handles = (w.generator g).handles) (hx : x.Inside ∧ x.SlotsEmpty)
      (hf : x.fiber = (w.generator g).fiber) : Sound δ ⟨w', .code c, fs⟩ := by
    refine h.change hb hh ?_ nofun (.task rfl) (.none fun _ => rfl) (fun _ _ => .rfl)
      (fun hle => ⟨_, hκ.mono hle, rfl⟩) ?_ ?_
    · intro hs
      simp [hinside.started.status] at hs
    · exact ⟨fun _ => hx, fun h => absurd h hun, fun h => absurd hin h⟩
    · intro k
      simp [Control.held, Generator.held, hf]
  cases herror : (w.generator g).error with
  | some e =>
    obtain ⟨w', hwake, hb⟩ := wake_error fs k herror hlt
    rw [hwake]
    have hvalue : (w.generator g).value = none :=
      hhanded.either.resolve_right (by rw [herror]; nofun)
    exact hcode hb rfl ⟨{ hinside with started := { hinside.started with } }, hvalue, rfl,
      hhanded.outcome⟩ rfl
  | none =>
    obtain ⟨w', hwake, hb⟩ := wake_value fs k herror hlt
    rw [hwake]
    exact hcode hb rfl ⟨{ hinside with started := { hinside.started with } }, rfl, herror,
      hhanded.outcome⟩ rfl

theorem sound_suspended (h : Sound δ ⟨w, .task (.suspended g), fs⟩) :
    Sound δ (suspended w fs g) := by
  obtain ⟨κ, hκ, hfit⟩ := h.order
  have hat : At _ (marks fs) g (w.generator g) := h.shape g
  obtain ⟨hin, hun, hstarted, hrun, hparked, hheld, hvalue, herror, houtcome⟩ :=
    hat.phase rfl (by decide)
  obtain ⟨v, hv⟩ := Option.isSome_iff_exists.mp hvalue
  obtain ⟨w', hsuspended, hb⟩ :=
    suspended_running fs hstarted.status hv (w.lt_size_of_started hstarted)
  rw [hsuspended]
  refine h.change hb rfl id nofun (.task rfl) (.none fun _ => rfl) (fun _ _ => .rfl) ?_ ?_
    fun _ => Nat.le_refl _
  · intro hle
    refine ⟨_, hκ.mono hle, ?_, ?_⟩
    · rcases hfit with rfl | rfl <;> exact trivial
    · rcases hfit with rfl | rfl
      · exact nofun
      · rintro _ ⟨⟩
        exact iff_of_true trivial (hb.self ▸ hparked)
  · refine ⟨fun h => absurd h hin, fun h => absurd h hun, fun _ _ => ⟨⟨hrun,
      ⟨rfl, herror, houtcome⟩, fun hs => ?_, fun _ => ⟨{ hstarted with }, .inl ⟨hparked, hheld⟩⟩,
      fun hs => ?_⟩, fun hs => ?_⟩⟩
    all_goals simp [hstarted.status] at hs

end Coroutine.Machine
