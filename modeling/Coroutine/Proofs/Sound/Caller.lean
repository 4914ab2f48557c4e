import Coroutine.Proofs.Sound

/-! The steps of a caller keep the invariant. What a step is about to name or to hold is a handle
that the generator has and nothing holds yet. -/

namespace Coroutine

variable {C : Type}

namespace World

variable {w : World C} {g k : GeneratorId}

theorem holdGuards_snd (w : World C) (guards : List (Guard C)) :
    (w.holdGuards guards).2 = { w with guards := w.guards + guards.length } := by
  induction guards generalizing w with
  | nil => rfl
  | cons guard rest ih =>
    simp only [holdGuards, ih, List.length_cons]
    congr 1
    omega

theorem addGenerator_fst (d : Definition C) : (w.addGenerator d).1 = w.generators.size := by
  simp [addGenerator, holdGuards_snd]

theorem size_addGenerator (d : Definition C) :
    (w.addGenerator d).2.generators.size = w.generators.size + 1 := by
  simp [addGenerator, holdGuards_snd]

theorem held_addGenerator (d : Definition C) : (w.addGenerator d).2.held k = w.held k := by
  have hnew (captures : List (HeldGuard C)) : (Generator.ofDefinition d captures).held k = 0 := rfl
  simp [addGenerator, held, holdGuards_snd, hnew]

theorem generator_addGenerator_self (d : Definition C) :
    (w.addGenerator d).2.generator w.generators.size =
      .ofDefinition d (w.holdGuards d.captures).1 := by
  simp [addGenerator, generator, holdGuards_snd]

theorem generator_addGenerator_of_ne (d : Definition C) (hk : k ≠ w.generators.size) :
    (w.addGenerator d).2.generator k = w.generator k := by
  simp [addGenerator, generator, holdGuards_snd, Array.getElem?_push, hk]

theorem handles_addGenerator (d : Definition C) : ((w.addGenerator d).2.generator k).handles =
    (w.generator k).handles + handleTo k w.generators.size := by
  by_cases hk : k = w.generators.size
  · rw [hk, generator_addGenerator_self, handleTo_self]
    simp [generator, Generator.ofDefinition, Generator.vacant]
  · rw [generator_addGenerator_of_ne d hk, handleTo, if_neg (Ne.symm hk)]
    rfl

/-- The handle of a new generator is one that nothing holds yet. -/
theorem owned_addGenerator {n : Nat} (d : Definition C)
    (h : w.held k + n ≤ (w.generator k).handles) :
    (w.addGenerator d).2.held k + handleTo k (w.addGenerator d).1 + n ≤
      ((w.addGenerator d).2.generator k).handles := by
  rw [handles_addGenerator, held_addGenerator, addGenerator_fst]
  omega

theorem held_of_handle {name : String} (hfind : w.handles.find? name = some g) : 0 < w.held g := by
  have := w.held_erase_handle (g := g) name
  simp only [hfind, sourceHeld, Option.map_some, Option.getD_some, handleTo_self] at this
  omega

theorem handles_retain (hlt : g < w.generators.size) :
    ((w.retain g).generator k).handles = (w.generator k).handles + handleTo k g := by
  by_cases hk : k = g
  · subst hk
    simp [retain, generator_modify_self hlt]
  · simp [retain, generator_modify_of_ne hk, handleTo, Ne.symm hk]

theorem held_retain_le : (w.retain g).held k ≤ w.held k := held_modify_of_fiber rfl

/-- Another handle of a generator that has one plays no part in the hand-off. -/
theorem alike_retain (hlt : g < w.generators.size) (hpos : 0 < (w.generator g).handles) :
    w.Alike (w.retain g) := by
  refine ⟨w.size_modify g _, fun k => ?_, fun k h0 => ?_, fun k h0 => ?_⟩
  · by_cases hk : k = g
    · subst hk
      rw [retain, generator_modify_self hlt]
      exact ⟨_, _, rfl, rfl⟩
    · rw [retain, generator_modify_of_ne hk]
      exact .refl _
  · rw [handles_retain hlt, h0, handleTo]
    split
    · next heq =>
      subst heq
      omega
    · rfl
  · rw [handles_retain hlt] at h0
    exact .inl (Nat.eq_zero_of_add_eq_zero_right h0)

end World

namespace Sound

variable {δ : GeneratorId → Prop} {w w' : World C} {c c' : Control C} {fs fs' : List (Frame C)}
  {g : GeneratorId}

theorem pos_of_handle (h : Sound δ ⟨w, c, fs⟩) {name : String}
    (hfind : w.handles.find? name = some g) : 0 < (w.generator g).handles := by
  have howned : w.held g + c.held g + heldFrames g fs ≤ (w.generator g).handles := h.owned g
  have := World.held_of_handle hfind
  omega

theorem retain (h : Sound δ ⟨w, c, fs⟩) (hc : c.Neutral) (hpos : 0 < (w.generator g).handles)
    (hc' : ∀ g, c'.phase? g = none) (hmarks : marks fs' = marks fs)
    (horder : ∃ κ, Awaits (w.fates c) κ fs' ∧ c'.Fits δ (w.retain g) fs' κ)
    (howned : ∀ k, w.held k + c'.held k + heldFrames k fs' ≤
      (w.generator k).handles + handleTo k g) : Sound δ ⟨w.retain g, c', fs'⟩ := by
  have hlt : g < w.generators.size := w.lt_size_of_handles hpos
  have halike := World.alike_retain hlt hpos
  obtain ⟨κ, hκ, hfits⟩ := horder
  refine ⟨⟨κ, hκ.mono (halike.fates_le hc), hfits⟩, fun k => ?_, fun k => ?_, fun k hd => ?_,
    fun k hk h0 => ?_⟩
  · simp only [At, hc' k, hmarks]
    exact (h.rest (hc.1 k)).of_alike (halike.generator k)
  · have hle : (w.retain g).held k ≤ w.held k := World.held_retain_le
    have := howned k
    rw [World.handles_retain hlt]
    simp only [Machine.held]
    omega
  · obtain ⟨hk, h0⟩ := h.dropped k (hmarks ▸ hd)
    exact ⟨halike.size ▸ hk, halike.handles k h0⟩
  · have h0 : ((w.retain g).generator k).handles = 0 := h0
    rw [World.handles_retain hlt] at h0
    rw [(halike.generator k).status, hmarks]
    have h0 : (w.generator k).handles = 0 := by omega
    refine (h.unheld k (halike.size ▸ hk) h0).imp_right fun hd => .inl ?_
    exact hd.resolve_right (hc.2 k)

theorem addGenerator (h : Sound δ ⟨w, c, fs⟩) (hc : c.Neutral) (d : Definition C)
    (hc' : ∀ g, c'.phase? g = none) (hmarks : marks fs' = marks fs)
    (horder : ∃ κ, Awaits (w.fates c) κ fs' ∧ c'.Fits δ (w.addGenerator d).2 fs' κ)
    (howned : ∀ k, w.held k + c'.held k + heldFrames k fs' ≤ (w.generator k).handles) :
    Sound δ ⟨(w.addGenerator d).2, c', fs'⟩ := by
  have hself := w.generator_addGenerator_self d
  have hother {k : GeneratorId} := w.generator_addGenerator_of_ne (k := k) d
  have hvacant : w.generator w.generators.size = .vacant := by simp [World.generator]
  have hsize := w.size_addGenerator d
  have hrest := h.rest (hc.1 w.generators.size)
  obtain ⟨hin, hun, -⟩ := hrest.idle_of_not_running (by rw [hvacant]; rfl)
  obtain ⟨κ, hκ, hfits⟩ := horder
  have hle : (w.fates c).Le ((w.addGenerator d).2.fates c') := by
    refine ⟨fun k hk => ?_, fun k hk => ?_⟩
    · show k < (w.addGenerator d).2.generators.size
      exact hsize ▸ Nat.lt_succ_of_lt hk
    · refine ⟨hsize ▸ Nat.lt_succ_of_lt hk.1, .inl ?_⟩
      rw [hother (Nat.ne_of_lt hk.1)]
      exact hk.2.resolve_right (hc.2 k)
  refine ⟨⟨κ, hκ.mono hle, hfits⟩, fun k => ?_, fun k => ?_, fun k hd => ?_, fun k hk h0 => ?_⟩
  · simp only [At, hc' k, hmarks]
    by_cases hk : k = w.generators.size
    · rw [hk, hself]
      refine ⟨fun h => absurd h hin, fun h => absurd h hun, fun _ _ => ⟨⟨rfl, ⟨rfl, rfl, rfl⟩,
        fun _ => ⟨rfl, rfl, rfl, rfl⟩, nofun, nofun⟩, nofun⟩⟩
    · rw [hother hk]
      exact h.rest (hc.1 k)
  · have := howned k
    simp only [Machine.held, World.held_addGenerator]
    by_cases hk : k = w.generators.size
    · rw [hk, hvacant] at this
      rw [hk, hself]
      show _ ≤ 1
      have h0 : (Generator.vacant : Generator C).handles = 0 := rfl
      omega
    · rw [hother hk]
      exact this
  · obtain ⟨hk, h0⟩ := h.dropped k (hmarks ▸ hd)
    refine ⟨hsize ▸ Nat.lt_succ_of_lt hk, ?_⟩
    rw [hother (Nat.ne_of_lt hk)]
    exact h0
  · by_cases hkn : k = w.generators.size
    · rw [hkn, hself] at h0
      exact absurd h0 (by simp [Generator.ofDefinition])
    · have hk : k < (w.addGenerator d).2.generators.size := hk
      have h0 : ((w.addGenerator d).2.generator k).handles = 0 := h0
      rw [hother hkn] at h0 ⊢
      rw [hmarks]
      have hlt : k < w.generators.size := by omega
      exact (h.unheld k hlt h0).imp_right fun hd => .inl (hd.resolve_right (hc.2 k))

/-- Something is dropped before an answer is given. -/
theorem keep {t : Task C} {a : Answer} {κ : Awaited} (h : Sound δ ⟨w, .answer a, fs⟩)
    (hκ : Awaits (w.fates (.answer a)) κ fs) (ha : a.Fits κ) (hplain : κ = .unit ∨ κ = .reply)
    (hw : w'.generators = w.generators) (ht : t.phase? = none)
    (hfits : t.Fits δ w' (.keeping a :: fs) .unit)
    (howned : ∀ k, w'.held k + t.held k + heldFrames k fs ≤ (w.generator k).handles) :
    Sound δ (Machine.task w' (.keeping a :: fs) t) := by
  refine h.restack (Control.neutral_answer a) hw (fun _ => by simp [ht]) rfl
    ⟨.unit, .keeping ha (ha.not_isYield ?_) ?_ ?_ hκ, hfits⟩ fun k => ?_
  · rcases hplain with rfl | rfl <;> rfl
  · rcases hplain with rfl | rfl <;> exact ⟨nofun, nofun⟩
  · rcases hplain with rfl | rfl <;> exact nofun
  · simpa [Control.held, Frame.held] using howned k

theorem awaits_reply {r : Reply} (h : Sound δ ⟨w, .answer (.reply r), fs⟩) :
    Awaits (w.fates (.answer (.reply r))) .reply fs := by
  obtain ⟨κ, hκ, hfits, -⟩ := h.order
  cases κ <;> first | exact hκ | exact hfits.elim

theorem owned_reply {r : Reply} (h : Sound δ ⟨w, .answer (.reply r), fs⟩) (k : GeneratorId) :
    w.held k + heldFrames k fs ≤ (w.generator k).handles := by
  simpa [Machine.held, Control.held] using h.owned k

end Sound

namespace Machine

variable {δ : GeneratorId → Prop} {w : World C} {fs : List (Frame C)} {a : Answer} {κ : Awaited}

theorem sound_nameHandle {g : GeneratorId} {name : String} (h : Sound δ ⟨w, .answer a, fs⟩)
    (hκ : Awaits (w.fates (.answer a)) κ fs) (ha : a.Fits κ) (hplain : κ = .unit ∨ κ = .reply)
    (howned : ∀ k, w.held k + handleTo k g + heldFrames k fs ≤ (w.generator k).handles) :
    Sound δ (nameHandle w fs name g a) := by
  simp only [nameHandle]
  split
  · next hfind =>
    refine h.restack (Control.neutral_answer a) rfl (fun _ => rfl) rfl ⟨κ, hκ, ha, ?_⟩ fun k => ?_
    · rcases hplain with rfl | rfl <;> rintro _ ⟨⟩
    · have := w.held_insert_handle (g := k) name g
      have := howned k
      simp only [hfind, sourceHeld, Option.map_none, Option.getD_none, Control.held] at *
      omega
  · next old hfind =>
    refine h.keep hκ ha hplain rfl rfl rfl fun k => ?_
    have := w.held_insert_handle (g := k) name g
    have := howned k
    simp only [hfind, sourceHeld, Option.map_some, Option.getD_some, Task.held] at *
    omega

theorem sound_nameIterator {source : Option GeneratorId} {name : String}
    (h : Sound δ ⟨w, .answer a, fs⟩) (hκ : Awaits (w.fates (.answer a)) κ fs) (ha : a.Fits κ)
    (hplain : κ = .unit ∨ κ = .reply)
    (howned : ∀ k, w.held k + sourceHeld k source + heldFrames k fs ≤ (w.generator k).handles) :
    Sound δ (nameIterator w fs name source a) := by
  have hinsert (k : GeneratorId) := w.held_insert_iterator (g := k) name source
  simp only [nameIterator]
  split
  · next old hfind =>
    refine h.keep hκ ha hplain rfl rfl rfl fun k => ?_
    have := hinsert k
    have := howned k
    simp only [hfind, sourceHeld, Option.map_some, Option.getD_some, Task.held] at *
    omega
  · refine h.restack (Control.neutral_answer a) rfl (fun _ => rfl) rfl ⟨κ, hκ, ha, ?_⟩ fun k => ?_
    · rcases hplain with rfl | rfl <;> rintro _ ⟨⟩
    · have := hinsert k
      have := howned k
      simp only [Control.held] at *
      omega

theorem sound_nameFiber {fiber : Fiber C} {name : String} (h : Sound δ ⟨w, .answer a, fs⟩)
    (hκ : Awaits (w.fates (.answer a)) κ fs) (ha : a.Fits κ) (hplain : κ = .unit ∨ κ = .reply)
    (howned : ∀ k, w.held k + fiber.state.held k + heldFrames k fs ≤ (w.generator k).handles) :
    Sound δ (nameFiber w fs name fiber a) := by
  have hinsert (k : GeneratorId) := w.held_insert_fiber (g := k) name fiber
  simp only [nameFiber]
  split
  · refine h.restack (Control.neutral_answer a) rfl (fun _ => rfl) rfl ⟨κ, hκ, ha, ?_⟩ fun k => ?_
    · rcases hplain with rfl | rfl <;> rintro _ ⟨⟩
    · have := hinsert k
      have := howned k
      simp only [Control.held] at *
      omega
  · next old hfind =>
    refine h.keep hκ ha hplain rfl rfl rfl fun k => ?_
    have := hinsert k
    have := howned k
    simp only [hfind, Option.map_some, Option.getD_some, Task.held] at *
    omega

section Step

variable {r : Reply}

theorem sound_reply {w' : World C} (h : Sound δ ⟨w, .answer (.reply r), fs⟩) (r' : Reply)
    (hw : w'.generators = w.generators) (hheld : ∀ k, w'.held k ≤ w.held k) :
    Sound δ (reply w' fs r') := by
  refine h.restack (Control.neutral_answer _) hw (fun _ => rfl) rfl
    ⟨_, h.awaits_reply, trivial, nofun⟩ fun k => ?_
  have := h.owned_reply k
  have := hheld k
  simp only [Control.held]
  omega

theorem sound_operate {name : String} {t : GeneratorId → Task C}
    (h : Sound δ ⟨w, .answer (.reply r), fs⟩) (ht : ∀ g, (t g).phase? = none)
    (hheld : ∀ k g, (t g).held k = 0)
    (hfits : ∀ w' fs' g, (t g).Fits δ w' fs' (.progress g) ∨ (t g).Fits δ w' fs' (.closed g)) :
    Sound δ (operate w fs name t) := by
  have hκ := h.awaits_reply
  simp only [operate]
  split
  · exact sound_reply h _ rfl fun _ => Nat.le_refl _
  · next g hfind =>
    refine h.retain (Control.neutral_answer _) (h.pos_of_handle hfind) (fun _ => by simp [ht]) rfl
      ?_ ?_
    · rcases hfits (w.retain g) (.reporting :: .holding g :: fs) g with hfits | hfits
      · exact ⟨_, .reporting (.inl rfl) hκ, hfits⟩
      · exact ⟨_, .reporting (.inr rfl) hκ, hfits⟩
    · intro k
      have := h.owned_reply k
      simp only [Control.held, hheld, heldFrames_cons, Frame.held]
      omega

theorem sound_pullNamed {it : String} {source : Option GeneratorId} {left : Nat}
    {items : List (Item ErrorReport)} (h : Sound δ ⟨w, .answer (.reply r), fs⟩)
    (howned : ∀ k, w.held k + sourceHeld k source + heldFrames k fs ≤ (w.generator k).handles) :
    Sound δ (pullNamed w fs it source left items) := by
  have hname (left : Nat) (source : Option GeneratorId)
      (howned : ∀ k, w.held k + sourceHeld k source + heldFrames k fs ≤
        (w.generator k).handles) : Sound δ (nameIterator w fs it source
          (.reply (.items (items.reverse ++ List.replicate left .ended)))) := by
    have h := sound_reply h (.items (items.reverse ++ List.replicate left .ended)) rfl
      fun _ => Nat.le_refl _
    exact sound_nameIterator h h.awaits_reply trivial (.inr rfl) howned
  simp only [pullNamed]
  split
  · next left g =>
    refine h.restack (Control.neutral_answer _) rfl (fun _ => rfl) rfl
      ⟨_, .pullingNamed h.awaits_reply, rfl⟩ fun k => ?_
    have := howned k
    simp only [sourceHeld, Option.map_some, Option.getD_some, Control.held, Task.held,
      heldFrames_cons, Frame.held] at *
    omega
  · exact hname _ _ howned

theorem sound_unwindOwning {w' : World C} {owner : Frame C}
    (h : Sound δ ⟨w, .answer (.reply r), fs⟩) (hw : w'.generators = w.generators)
    (howner : ∀ F : Fates, Awaits F .reply fs → Awaits F .panic (owner :: fs))
    (hmark : owner.mark? = none)
    (hheld : ∀ k, w'.held k + owner.held k = w.held k) :
    Sound δ (unwindOwning w' fs owner) := by
  refine h.restack (Control.neutral_answer _) hw (fun _ => rfl) (by rw [marks_cons, hmark]; rfl)
    ⟨_, howner _ h.awaits_reply, nofun, ⟨nofun, nofun⟩, nofun⟩ ?_
  intro k
  have := h.owned_reply k
  have := hheld k
  simp only [Control.held, heldFrames_cons]
  omega

theorem sound_createFiber {f : String} {size : Nat} {captures : List (Guard C)} {entry : C}
    (h : Sound δ ⟨w, .answer (.reply r), fs⟩) :
    Sound δ (createFiber w fs f size captures entry) := by
  have hκ := h.awaits_reply
  simp only [createFiber, World.holdGuards_snd]
  generalize (w.holdGuards captures).1 = held
  split
  · have h := sound_reply h (.allocationFailure ⟨size⟩) rfl fun _ => Nat.le_refl _
    exact h.keep (t := .release held) h.awaits_reply trivial (.inr rfl) rfl rfl (.inl rfl)
      h.owned_reply
  split
  · refine h.restack (Control.neutral_answer _) rfl (fun _ => rfl) rfl ⟨.unit, ?_, .inl rfl⟩
      fun k => ?_
    · exact .unwinding (κ := .panic) nofun ⟨nofun, nofun⟩ rfl
        (.catching (κ := .reply) trivial ⟨nofun, nofun⟩ rfl hκ)
    · simpa [Control.held, Task.held, Frame.held, World.held] using h.owned_reply k
  · have h : Sound δ (reply (World.log { w with guards := w.guards + captures.length }
        (.allocated size)) fs .ok) :=
      sound_reply h .ok rfl fun _ => Nat.le_refl _
    refine sound_nameFiber h h.awaits_reply trivial (.inr rfl) fun k => ?_
    exact h.owned_reply k

theorem held_takeFiber {f : String} {fiber : Fiber C} (hfind : w.fibers.find? f = some fiber)
    (k : GeneratorId) :
    ({ w with fibers := w.fibers.erase f } : World C).held k + fiber.state.held k = w.held k := by
  simpa [hfind] using w.held_erase_fiber (g := k) f

theorem sound_switchFiber {f : String} {fiber : Fiber C} (h : Sound δ ⟨w, .answer (.reply r), fs⟩)
    (hfind : w.fibers.find? f = some fiber) : Sound δ (switchFiber w fs f fiber) := by
  have hκ := h.awaits_reply
  have herase := held_takeFiber hfind
  obtain ⟨size, state⟩ := fiber
  rcases state with entry | ⟨k, scopes, captures⟩ | _ | _
  · refine h.restack (Control.neutral_answer _) rfl (fun _ => rfl) rfl
      ⟨_, .closure (.switching hκ), rfl⟩ fun g => ?_
    have := herase g
    have := h.owned_reply g
    simp only [stackFiber_nil, heldFrames_cons, Frame.held, Control.held]
    omega
  · refine h.restack (Control.neutral_answer _) rfl (fun _ => rfl) (by simp)
      ⟨_, Awaits.stackFiber_iff.mpr (.switching hκ), rfl⟩ fun g => ?_
    have := herase g
    have := h.owned_reply g
    simp only [heldFrames_stackFiber, heldFrames_cons, Frame.held, Control.held,
      FiberState.held] at *
    omega
  all_goals exact sound_reply h _ rfl fun _ => Nat.le_refl _

theorem sound_retained {g : GeneratorId} {name : String}
    (h : Sound δ ⟨w, .answer (.reply r), fs⟩) (hfind : w.handles.find? name = some g) :
    Sound δ ⟨w.retain g, .answer (.reply r), fs⟩ ∧
      ∀ k, (w.retain g).held k + handleTo k g + heldFrames k fs ≤
        ((w.retain g).generator k).handles := by
  have hpos := h.pos_of_handle hfind
  constructor
  · refine h.retain (Control.neutral_answer _) hpos (fun _ => rfl) rfl
      ⟨_, h.awaits_reply, trivial, nofun⟩ ?_
    intro k
    have := h.owned_reply k
    simp only [Control.held]
    omega
  · intro k
    have := h.owned_reply k
    have hle : (w.retain g).held k ≤ w.held k := World.held_retain_le
    rw [World.handles_retain (w.lt_size_of_handles hpos)]
    omega

/-- What a name stood for is taken, and dropped. -/
theorem sound_dropNamed {w' : World C} {t : Task C} (h : Sound δ ⟨w, .answer (.reply r), fs⟩)
    (hw : w'.generators = w.generators) (ht : t.phase? = none)
    (hfits : t.Fits δ w' (.keeping (.reply r) :: fs) .unit)
    (hheld : ∀ k, w'.held k + t.held k ≤ w.held k) :
    Sound δ (task w' (.keeping (.reply r) :: fs) t) := by
  refine h.keep h.awaits_reply trivial (.inr rfl) hw ht hfits ?_
  intro k
  have := h.owned_reply k
  have := hheld k
  omega

theorem sound_create {name : String} {d : Definition C}
    (h : Sound δ ⟨w, .answer (.reply r), fs⟩) :
    Sound δ (nameHandle (w.addGenerator d).2 fs name (w.addGenerator d).1 (.reply r)) := by
  have hnew : Sound δ (reply (w.addGenerator d).2 fs r) :=
    h.addGenerator (Control.neutral_answer _) d (fun _ => rfl) rfl
      ⟨_, h.awaits_reply, trivial, nofun⟩ h.owned_reply
  exact sound_nameHandle hnew hnew.awaits_reply trivial (.inr rfl) fun k =>
    World.owned_addGenerator d (h.owned_reply k)

/-- An iterator takes a handle of its own, or the one that is named. -/
theorem sound_iterate {g : GeneratorId} {name it : String} (into : Bool)
    (h : Sound δ ⟨w, .answer (.reply r), fs⟩) (hfind : w.handles.find? name = some g) :
    Sound δ (nameIterator
      (if into then { w with handles := w.handles.erase name } else w.retain g) fs it (some g)
      (.reply r)) := by
  cases into with
  | false =>
    obtain ⟨hretained, howned⟩ := sound_retained h hfind
    exact sound_nameIterator hretained hretained.awaits_reply trivial (.inr rfl) howned
  | true =>
    have herase (k : GeneratorId) := w.held_erase_handle (g := k) name
    simp only [hfind] at herase
    have herased : Sound δ (reply { w with handles := w.handles.erase name } fs r) := by
      refine sound_reply h r rfl ?_
      intro k
      have := herase k
      omega
    refine sound_nameIterator herased herased.awaits_reply trivial (.inr rfl) ?_
    intro k
    have howned := h.owned_reply k
    rw [← herase k] at howned
    exact howned

theorem sound_pull {it : String} {source : Option GeneratorId} {n : Nat}
    (h : Sound δ ⟨w, .answer (.reply r), fs⟩) (hfind : w.iterators.find? it = some source) :
    Sound δ (pullNamed { w with iterators := w.iterators.erase it } fs it source n []) := by
  have herase (k : GeneratorId) := w.held_erase_iterator (g := k) it
  simp only [hfind, Option.map_some, Option.getD_some] at herase
  have herased : Sound δ (reply { w with iterators := w.iterators.erase it } fs r) := by
    refine sound_reply h r rfl ?_
    intro k
    have := herase k
    omega
  refine sound_pullNamed herased ?_
  intro k
  have howned := h.owned_reply k
  rw [← herase k] at howned
  exact howned

theorem sound_makeStep {s : Step C} (h : Sound δ ⟨w, .task (.step s), fs⟩) :
    Sound δ (makeStep w fs s) := by
  -- the step can be answered, and whatever else it does starts from there
  have hready (r : Reply) : Sound δ ⟨w, .answer (.reply r), fs⟩ := by
    obtain ⟨κ, hκ, hfit⟩ := h.order
    obtain rfl : κ = .reply := hfit
    refine h.still (Control.neutral_task rfl nofun) rfl (fun _ => rfl) rfl
      ⟨_, hκ, trivial, nofun⟩ ?_
    intro k
    simp [Machine.held, Control.held, Task.held]
  have hreply {w' : World C} (r : Reply) (hw : w'.generators = w.generators)
      (hheld : ∀ k, w'.held k ≤ w.held k) : Sound δ (reply w' fs r) :=
    sound_reply (hready .ok) r hw hheld
  have hsame {w' : World C} {k : GeneratorId} : w'.held k ≤ w'.held k := Nat.le_refl _
  cases s with
  | create name d => exact sound_create (hready .ok)
  | resume name sent =>
    exact sound_operate (hready .ok) (fun _ => rfl) (fun _ _ => rfl) fun _ _ _ => .inl rfl
  | throw name e =>
    simp only [makeStep]
    split
    · exact hreply _ rfl fun _ => hsame
    · exact sound_operate (hreply .ok rfl fun _ => hsame) (fun _ => rfl) (fun _ _ => rfl)
        fun _ _ _ => .inl rfl
  | close name =>
    exact sound_operate (hready .ok) (fun _ => rfl) (fun _ _ => rfl) fun _ _ _ => .inr rfl
  | info name =>
    simp only [makeStep]
    split <;> exact hreply _ rfl fun _ => hsame
  | clone name as =>
    simp only [makeStep]
    split
    · exact hreply _ rfl fun _ => hsame
    · next g hfind =>
      obtain ⟨hretained, howned⟩ := sound_retained (hready .ok) hfind
      exact sound_nameHandle hretained hretained.awaits_reply trivial (.inr rfl) howned
  | drop name =>
    simp only [makeStep]
    split
    · exact hreply _ rfl fun _ => hsame
    · next g hfind =>
      refine sound_dropNamed (hready .ok) rfl rfl rfl ?_
      intro k
      have := w.held_erase_handle (g := k) name
      simp only [hfind, sourceHeld, Option.map_some, Option.getD_some, Task.held] at *
      omega
  | sameGenerator name other =>
    simp only [makeStep]
    split <;> exact hreply _ rfl fun _ => hsame
  | iterate name it into =>
    simp only [makeStep]
    split
    · exact hreply _ rfl fun _ => hsame
    · next g hfind => exact sound_iterate into (hready .ok) hfind
  | pull it count =>
    simp only [makeStep]
    split
    · exact hreply _ rfl fun _ => hsame
    · next source hfind => exact sound_pull (hready .ok) hfind
  | dropIterator it =>
    simp only [makeStep]
    split
    · exact hreply _ rfl fun _ => hsame
    · next source hfind =>
      refine sound_dropNamed (hready .ok) rfl rfl rfl ?_
      intro k
      have := w.held_erase_iterator (g := k) it
      simp only [hfind, Option.map_some, Option.getD_some] at this
      exact Nat.le_of_eq this
  | nameException name e => exact hreply _ rfl fun _ => hsame
  | describe e => exact hreply _ rfl fun _ => hsame
  | sameException a b => exact hreply _ rfl fun _ => hsame
  | unwind names =>
    refine sound_unwindOwning (hready .ok) rfl (fun _ h => .owningHandles h) rfl ?_
    intro k
    have := total_takeNamed (handleTo k) w.handles names
    simp only [World.held, Frame.held]
    omega
  | createFiber f size captures entry => exact sound_createFiber (hready .ok)
  | switch f =>
    simp only [makeStep]
    split
    · exact hreply _ rfl fun _ => hsame
    · next fiber hfind => exact sound_switchFiber (hready .ok) hfind
  | fiberInfo f =>
    simp only [makeStep]
    split <;> exact hreply _ rfl fun _ => hsame
  | destroy f | dropFiber f =>
    simp only [makeStep]
    split
    · exact hreply _ rfl fun _ => hsame
    · next fiber hfind =>
      exact sound_dropNamed (hready .ok) rfl rfl rfl fun k => Nat.le_of_eq (held_takeFiber hfind k)
  | unwindFibers names =>
    refine sound_unwindOwning (hready .ok) rfl (fun _ h => .owningFibers h) rfl ?_
    intro k
    have := total_takeNamed (fun f => f.state.held k) w.fibers names
    simp only [World.held, Frame.held]
    omega
  | unwindDestroy f =>
    simp only [makeStep]
    split
    · exact hreply _ rfl fun _ => hsame
    · next fiber hfind =>
      refine sound_unwindOwning (hready .ok) rfl (fun _ h => .owningFibers h) rfl ?_
      intro k
      simpa [Frame.held] using held_takeFiber hfind k

end Step

end Machine

end Coroutine
