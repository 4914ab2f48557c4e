import Coroutine.Proofs.Sound.Finalize
import Coroutine.Proofs.Sound.Producer
import Coroutine.Proofs.Sound.Release

/-! What frames do with answers and panics keeps the invariant. -/

namespace Coroutine.Machine

variable {C : Type} {δ : GeneratorId → Prop} {w : World C} {c : Control C}
  {fs : List (Frame C)} {g : GeneratorId}

/-- A step or a release can be answered with a reply. -/
theorem sound_ready {f : Frame C} (h : Sound δ ⟨w, c, f :: fs⟩) (hc : c.Neutral)
    (hκ : Awaits (w.fates c) .reply fs) (hmark : f.mark? = none) (hheld : ∀ k, c.held k = 0) :
    Sound δ (reply w fs .ok) ∧
      ∀ k, w.held k + f.held k + heldFrames k fs ≤ (w.generator k).handles := by
  have howned (k : GeneratorId) : w.held k + f.held k + heldFrames k fs ≤
      (w.generator k).handles := by
    have := h.owned k
    simp only [Machine.held, hheld, heldFrames_cons] at this
    omega
  refine ⟨h.restack hc rfl (fun _ => rfl) (by rw [marks_cons, hmark]; rfl)
    ⟨.reply, hκ, trivial, nofun⟩ fun k => ?_, howned⟩
  have := howned k
  simp only [Control.held]
  omega

/-- The close that the last handle asked for is over, and the generator is abandoned. -/
theorem sound_abandoning {w' : World C} {fs' : List (Frame C)}
    (h : Sound δ ⟨w, c, .dropping g :: fs⟩) (hc : c.Neutral) (hw : w'.generators = w.generators)
    (hκ : Awaits (w.fates c) .unit fs') (hchain : chain fs' = chain fs)
    (hmarks : marks fs' = marks fs) (hout : g ∉ chain fs) (hparked : ¬ (w.generator g).Parked)
    (hheld : ∀ k, w'.held k = w.held k) (hframes : ∀ k, heldFrames k fs' = heldFrames k fs) :
    Sound δ (task w' fs' (.abandon g)) := by
  have halike := World.alike_of_generators hw
  have hgen (k : GeneratorId) : w'.generator k = w.generator k := by simp [World.generator, hw]
  refine ⟨⟨.unit, hκ.mono (halike.fates_le hc), rfl, hchain ▸ hout, fun hp => ?_⟩, fun k => ?_,
    fun k => ?_, fun k hd => ?_, fun k hlt h0 => ?_⟩
  · exact absurd (hgen g ▸ hp) hparked
  · show Rest (marks fs') k (w'.generator k)
    have hrest : Rest (marks (.dropping g :: fs)) k (w.generator k) := h.rest (hc.1 k)
    rw [hgen, hmarks]
    exact hrest.of_sameMarks ⟨by simp, by simp, by simp⟩
  · show w'.held k + 0 + heldFrames k fs' ≤ (w'.generator k).handles
    have howned : w.held k + c.held k + (0 + heldFrames k fs) ≤ (w.generator k).handles :=
      h.owned k
    rw [hgen, hheld, hframes]
    omega
  · show k < w'.generators.size ∧ (w'.generator k).handles = 0
    rw [hw, hgen]
    have hd : .dropped k ∈ marks fs' := hd
    rw [hmarks] at hd
    exact h.dropped k (by simp [hd])
  · show (w'.generator k).status = .finished ∨ .dropped k ∈ marks fs' ∨ _ = _
    have h0 : (w'.generator k).handles = 0 := h0
    rw [hgen] at h0 ⊢
    rw [hmarks]
    have hlt : k < w.generators.size := hw ▸ hlt
    rcases h.unheld k hlt h0 with hs | hd | hab
    · exact .inl hs
    · have hd : k = g ∨ .dropped k ∈ marks fs := by simpa using hd
      rcases hd with rfl | hd
      · exact .inr (.inr rfl)
      · exact .inr (.inl hd)
    · exact absurd hab (hc.2 k)

theorem sound_leaveProducer {w' : World C} {c' : Control C} {x : Generator C}
    (h : Sound δ ⟨w, c, .driving g :: fs⟩) (hc : c.Neutral) (hheld : ∀ k, c.held k = 0)
    (hb : w.Becomes g x w') (hh : x.handles = (w.generator g).handles) (hdead : x.Dead)
    (hc' : c'.About g) (hheld' : ∀ k, c'.held k = 0)
    (horder : (w.fates c).Le (w'.fates c') → Ordered δ w' c' fs) (hat : At c' (marks fs) g x) :
    Sound δ ⟨w', c', fs⟩ := by
  have hrest : Rest (marks (.driving g :: fs)) g (w.generator g) := h.rest (hc.1 g)
  obtain ⟨hinside, -⟩ := hrest.inside (by simp)
  obtain ⟨size, hf⟩ := hinside.entered
  obtain ⟨size', hf'⟩ := hdead
  refine h.change hb hh (fun hs => ?_) (fun k hk => absurd hk (hc.2 k)) (.none hc.1) hc'
    (fun μ hμ => by simp [hμ.1]) horder hat fun k => ?_
  · simp [hinside.started.status] at hs
  · simp [Generator.held, hf, hf', FiberState.held, Frame.held, hheld, hheld']

theorem sound_endProducer {r : Except Exception Value}
    (h : Sound δ ⟨w, .answer (.outcome r), .driving g :: fs⟩) {κ : Awaited}
    (hκ : Awaits (w.fates (.answer (.outcome r))) κ fs) (hop : κ = .progress g ∨ κ = .pursued g)
    (hout : g ∉ chain fs) : Sound δ (endProducer w fs g r) := by
  have hrest : Rest (marks (.driving g :: fs)) g (w.generator g) := h.rest rfl
  obtain ⟨hinside, hslots⟩ := hrest.inside (by simp)
  obtain ⟨size, hf⟩ := hinside.entered
  have hlt : g < w.generators.size := w.lt_size_of_started hinside.started
  obtain ⟨hin, hun⟩ := not_or.mp (mt mem_chain_iff.mpr hout)
  obtain ⟨w', heq, hb⟩ := endProducer_eq (r := r) fs hlt hslots.outcome
  rw [heq]
  refine sound_leaveProducer h (Control.neutral_answer _) (fun _ => rfl) hb rfl ?_ (.task rfl)
    (fun _ => rfl) (fun hle => ⟨κ, hκ.mono hle, hop⟩) ?_
  · exact ⟨size, by rw [hf]; rfl⟩
  · exact .of_phase rfl (by decide) hin hun ⟨{ hinside.started with }, rfl,
      ⟨size, by rw [hf]; rfl⟩, rfl, .inl ⟨rfl, hslots.value, hslots.error⟩⟩

theorem sound_finishClose {r : Except OpError (Progress Value Value)}
    (h : Sound δ ⟨w, .answer (.progress r), .closing g :: fs⟩)
    (hκ : Awaits (w.fates (.answer (.progress r))) (.closed g) fs) (hlt : g < w.generators.size)
    (hout : g ∉ chain fs) (hparked : (Answer.progress r).IsYield ↔ (w.generator g).Parked)
    (hδ : Defies g ⟨w, .answer (.progress r), .closing g :: fs⟩ → δ g) :
    Sound δ (finishClose w fs g r) := by
  have hclosed (r' : Except OpError Unit) (hr : ¬ (Answer.progress r).IsYield) :
      Sound δ (closed w fs r') := by
    refine h.still (Control.neutral_answer _) rfl (fun _ => rfl) rfl ⟨_, hκ, trivial, ?_⟩
      fun k => ?_
    · rintro _ ⟨⟩
      exact iff_of_false not_false (mt hparked.mpr hr)
    · simp [Machine.held, Control.held, Frame.held]
  rcases r with (_ | _ | _ | e | _) | (_ | _)
  case error.raised => exact hclosed _ not_false
  case ok.yielded v =>
    refine h.change ((World.Becomes.refl g w).log _) rfl id nofun (.none fun _ => rfl)
      (.none fun _ => rfl) (fun _ _ => by simp) (fun hle => ⟨.unit, .violating (hκ.mono hle)
        ⟨hle.known g hlt, .inr rfl⟩, rfl, by simpa using hout,
        fun _ hpanicking => hδ ⟨v, fs, rfl, rfl, hpanicking⟩⟩) ?_ fun k => ?_
    · exact h.rest rfl
    · simp [Control.held, Task.held, Frame.held]
  all_goals exact hclosed _ not_false

theorem sound_finishPull {a : Answer} {k : Item OpError → C} {item : Item OpError}
    (h : Sound δ ⟨w, .answer a, .pulling g k :: .scope (.iterator (some g)) :: fs⟩)
    (hκ : Awaits (w.fates (.answer a)) .code (.scope (.iterator (some g)) :: fs)) :
    Sound δ (finishPull w (.scope (.iterator (some g)) :: fs) g k item) := by
  have hended (item : Item OpError) :
      Sound δ (task w (.resuming (k item) :: .scope (.iterator none) :: fs) (.dropHandle g)) := by
    cases hκ with
    | scope hκ =>
      refine h.still (Control.neutral_answer a) rfl (fun _ => rfl) rfl
        ⟨.unit, .resuming (.scope hκ), rfl⟩ fun k => ?_
      simp only [Machine.held, Control.held, Task.held, heldFrames_cons, Frame.held, Scope.held,
        sourceHeld, Option.map_some, Option.map_none, Option.getD_some, Option.getD_none]
      omega
  cases item with
  | value v =>
    refine h.still (Control.neutral_answer a) rfl (fun _ => rfl) rfl ⟨.code, hκ, rfl⟩ fun k => ?_
    simp [Machine.held, Control.held, Frame.held]
  | failed e => exact hended _
  | ended => exact hended _

theorem sound_finishNamedPull {a : Answer} {it : String} {left : Nat}
    {items : List (Item ErrorReport)} {item : Item OpError}
    (h : Sound δ ⟨w, .answer a, .pullingNamed it g left items :: fs⟩)
    (hκ : Awaits (w.fates (.answer a)) .reply fs) :
    Sound δ (finishNamedPull w fs it g left items item) := by
  obtain ⟨hready, howned⟩ := sound_ready h (Control.neutral_answer a) hκ rfl fun _ => rfl
  have hended (item : Item OpError) :
      Sound δ (task w (.endingNamed it left items item :: fs) (.dropHandle g)) := by
    refine h.still (Control.neutral_answer a) rfl (fun _ => rfl) rfl
      ⟨.unit, .endingNamed hκ, rfl⟩ fun k => ?_
    simp only [Machine.held, Control.held, Task.held, heldFrames_cons, Frame.held]
    omega
  cases item with
  | value v =>
    exact sound_pullNamed hready howned
  | failed e => exact hended _
  | ended => exact hended _

section Deliver

variable {a : Answer} {κ : Awaited} {c' : C} {k : Reply → C}

/-- No producer is suspended whose generator has ended for the frames. -/
theorem not_parked_of_ended (h : Sound δ ⟨w, c, fs⟩) (hc : c.Neutral)
    (hended : (w.fates c).ended g) : ¬ (w.generator g).Parked := by
  have hrest : Rest (marks fs) g (w.generator g) := h.rest (hc.1 g)
  exact hrest.not_parked (.inr (hended.2.resolve_right (hc.2 g)))

theorem sound_viewed (h : Sound δ ⟨w, .answer a, .viewing g k :: fs⟩) (hfit : a.Fits κ)
    (hop : κ = .progress g ∨ κ = .closed g) (hκ : Awaits (w.fates (.answer a)) .code fs) :
    Sound δ (deliver w a (.viewing g k :: fs)) := by
  have hviewed {w' : World C} {c : C} (hw : w'.generators = w.generators)
      (hheld : ∀ k, w'.held k = w.held k) :
      Sound δ (task w' (.resuming c :: fs) (.dropHandle g)) := by
    refine h.still (Control.neutral_answer a) hw (fun _ => rfl) rfl ⟨.unit, .resuming hκ, rfl⟩ ?_
    intro k
    simp only [Machine.held, hheld, Control.held, Task.held, heldFrames_cons, Frame.held]
    omega
  rcases hop with rfl | rfl
  · cases a with
    | progress r => rcases r with _ | (_ | _) <;> exact hviewed rfl fun _ => rfl
    | _ => exact hfit.elim
  · cases a with
    | closed r => rcases r with _ | _ <;> exact hviewed rfl fun _ => rfl
    | _ => exact hfit.elim

theorem sound_reported (h : Sound δ ⟨w, .answer a, .reporting :: .holding g :: fs⟩)
    (hfit : a.Fits κ) (hop : κ = .progress g ∨ κ = .closed g)
    (hκ : Awaits (w.fates (.answer a)) .reply fs) :
    Sound δ (deliver w a (.reporting :: .holding g :: fs)) := by
  have hreported {w' : World C} {r : Reply} (hw : w'.generators = w.generators)
      (hheld : ∀ k, w'.held k = w.held k) : Sound δ (reply w' (.holding g :: fs) r) := by
    refine h.still (Control.neutral_answer a) hw (fun _ => rfl) rfl
      ⟨.reply, .holding hκ, trivial, nofun⟩ ?_
    intro k
    simp [Machine.held, hheld, Control.held, Frame.held]
  rcases hop with rfl | rfl
  · cases a with
    | progress r => rcases r with _ | (_ | _) <;> exact hreported rfl fun _ => rfl
    | _ => exact hfit.elim
  · cases a with
    | closed r => rcases r with _ | _ <;> exact hreported rfl fun _ => rfl
    | _ => exact hfit.elim

/-- A close that was answered with a yield comes back with an error, or panics. -/
theorem sound_violated (h : Sound δ ⟨w, .answer a, .violating g :: fs⟩)
    (hκ : Awaits (w.fates (.answer a)) (.closed g) fs) (hended : (w.fates (.answer a)).ended g) :
    Sound δ (deliver w a (.violating g :: fs)) := by
  have hc : (Control.answer a : Control C).Neutral := Control.neutral_answer a
  have hparked := not_parked_of_ended h hc hended
  simp only [deliver]
  split
  · refine h.still hc rfl (fun _ => rfl) rfl ⟨_, hκ, trivial, ?_⟩ ?_
    · rintro _ ⟨⟩
      exact iff_of_false not_false hparked
    · intro k
      simp [Machine.held, Control.held, Frame.held]
  · refine h.still hc rfl (fun _ => rfl) rfl ⟨_, hκ, nofun, ⟨nofun, nofun⟩, ?_⟩ ?_
    · rintro _ ⟨⟩
      exact hparked
    · intro k
      simp [Machine.held, Control.held, Frame.held]

/-- An entry procedure that never ran has been released, and the payload comes next. -/
theorem sound_emptied (h : Sound δ ⟨w, .answer a, .emptying g :: fs⟩)
    (hκ : Awaits (w.fates (.answer a)) .unit fs) (hended : (w.fates (.answer a)).ended g)
    (hout : g ∉ chain fs) : Sound δ (task w fs (.releasePayload g)) := by
  obtain ⟨hin, hun⟩ := not_or.mp (mt mem_chain_iff.mpr hout)
  have hrest : Rest (marks (.emptying g :: fs)) g (w.generator g) := h.rest rfl
  obtain ⟨hidle, -⟩ := hrest.idle (by simpa using hin) (by simpa using hun)
  obtain ⟨hend, hentry, hfree⟩ := hidle.finished (hended.2.resolve_right nofun)
  refine h.change (.refl g w) rfl id nofun (.none fun _ => rfl) (.task rfl)
    (fun μ hμ => by simp [hμ.2.2]) ?_ ?_ ?_
  · intro hle
    refine ⟨.unit, hκ.mono hle, rfl, ?_⟩
    intro hheld hcleanup
    simp [hfree hcleanup] at hheld
  · exact .of_phase rfl (by decide) hin hun ⟨hend, hidle.running, hentry⟩
  · intro k
    simp [Control.held, Task.held, Frame.held]

end Deliver

theorem sound_deliver {a : Answer} (h : Sound δ ⟨w, .answer a, fs⟩)
    (hδ : ∀ g, Defies g ⟨w, .answer a, fs⟩ → δ g) : Sound δ (deliver w a fs) := by
  obtain ⟨κ, hκ, hfit, hparked⟩ := h.order
  have hκ : Awaits (w.fates (.answer a)) κ fs := hκ
  have hc : (Control.answer a : Control C).Neutral := Control.neutral_answer a
  cases hκ with
  | nothing => exact h
  | @scope s fs hbelow =>
    refine h.still hc rfl (fun _ => rfl) rfl
      ⟨.unit, .keeping hfit (hfit.not_isYield rfl) ⟨nofun, nofun⟩ nofun hbelow, rfl⟩ fun k => ?_
    simp only [Machine.held, Control.held, Task.held, heldFrames_cons, Frame.held]
    omega
  | @closure captures fs hbelow =>
    have hfit : a.Fits .outcome := by cases a <;> exact hfit
    refine h.still hc rfl (fun _ => rfl) rfl
      ⟨.unit, .keeping hfit (hfit.not_isYield rfl) ⟨nofun, nofun⟩ nofun hbelow, .inl rfl⟩
      fun k => ?_
    simp [Machine.held, Control.held, Task.held, Frame.held]
  | @driving κ g fs hbelow hop hout =>
    cases a with
    | outcome r => exact sound_endProducer h hbelow hop hout
    | _ => exact hfit.elim
  | @switching f size fs hbelow =>
    cases a with
    | outcome r =>
      obtain ⟨hready, howned⟩ := sound_ready h hc hbelow rfl fun _ => rfl
      have hready := sound_reply hready (.switched true) rfl fun _ => Nat.le_refl _
      exact sound_nameFiber hready hready.awaits_reply trivial (.inr rfl) howned
    | _ => exact hfit.elim
  | cancelledScope _ | cancelledClosure _ | destroying _ _ | dismantling _ =>
    cases a <;> exact hfit.elim
  | @entering s c' fs hbelow =>
    refine h.still hc rfl (fun _ => rfl) rfl ⟨.code, .scope hbelow, rfl⟩ fun k => ?_
    simp [Machine.held, Control.held, Frame.held]
  | @resuming c' fs hbelow =>
    refine h.still hc rfl (fun _ => rfl) rfl ⟨.code, hbelow, rfl⟩ fun k => ?_
    simp [Machine.held, Control.held, Frame.held]
  | @calling catches k fs hbelow =>
    cases a with
    | reply r =>
      refine h.still hc rfl (fun _ => rfl) rfl ⟨.code, hbelow, rfl⟩ fun k => ?_
      simp [Machine.held, Control.held, Frame.held]
    | _ => exact hfit.elim
  | @pulling g k fs hbelow =>
    cases a with
    | progress r => exact sound_finishPull h hbelow
    | _ => exact hfit.elim
  | viewing hop hbelow => exact sound_viewed h hfit hop hbelow
  | reporting hop hbelow => exact sound_reported h hfit hop hbelow
  | @holding g fs hbelow =>
    refine h.still hc rfl (fun _ => rfl) rfl
      ⟨.unit, .keeping hfit (hfit.not_isYield rfl) ⟨nofun, nofun⟩ nofun hbelow, rfl⟩ fun k => ?_
    simp only [Machine.held, Control.held, Task.held, heldFrames_cons, Frame.held]
    omega
  | @pullingNamed it g left items fs hbelow =>
    cases a with
    | progress r => exact sound_finishNamedPull h hbelow
    | _ => exact hfit.elim
  | @endingNamed it left items item fs hbelow =>
    obtain ⟨hready, howned⟩ := sound_ready h hc hbelow rfl fun _ => rfl
    cases item with
    | failed e =>
      have hready : Sound δ (reply (w.report e).2 fs .ok) :=
        sound_reply hready .ok rfl fun _ => Nat.le_refl _
      exact sound_pullNamed hready howned
    | _ => exact sound_pullNamed hready howned
  | @keeping kept κ fs hkept hyield hopen hended hbelow =>
    refine h.still hc rfl (fun _ => rfl) rfl ⟨κ, hbelow, hkept, fun g hg => ?_⟩ fun k => ?_
    · have hended := hended g (Awaited.operand?_of_closing? hg)
      exact iff_of_false hyield (not_parked_of_ended h hc hended)
    · simp [Machine.held, Control.held, Frame.held]
  | @unwinding p κ fs hp hopen hop hbelow =>
    refine h.still hc rfl (fun _ => rfl) rfl ⟨κ, hbelow, hp, hopen, fun g hg => ?_⟩ fun k => ?_
    · simp [Awaited.operand?_of_closing? hg] at hop
    · simp [Machine.held, Control.held, Frame.held]
  | @cancelling fs hbelow =>
    refine h.still hc rfl (fun _ => rfl) rfl ⟨.cancel, hbelow, rfl⟩ fun k => ?_
    simp [Machine.held, Control.held, Frame.held]
  | catching _ _ _ _ => cases a <;> exact hfit.elim
  | @closing g fs hbelow hknown hout =>
    cases a with
    | progress r => exact sound_finishClose h hbelow hknown hout (hparked g rfl) (hδ g)
    | _ => exact hfit.elim
  | violating hbelow hended => exact sound_violated h hbelow hended
  | @dropping g fs hbelow hknown hout =>
    have hparked : a.IsYield ↔ (w.generator g).Parked := hparked g rfl
    cases a with
    | closed r =>
      refine sound_abandoning h hc ?_ hbelow rfl rfl hout (mt hparked.mpr not_false) ?_
        fun _ => rfl
      · cases r <;> rfl
      · cases r <;> exact fun _ => rfl
    | _ => exact hfit.elim
  | @emptying g fs hbelow hended hout =>
    cases a with
    | unit => exact sound_emptied h hbelow hended hout
    | _ => exact hfit.elim
  | @cleaning todo last fs hbelow =>
    cases a with
    | reply r =>
      obtain ⟨c', fs', heq, hc', hmarks, hheld, hfits⟩ :=
        clean_eq (δ := δ) (w := w.note (.onCleanup r)) fs todo last
      simp only [deliver, heq]
      refine h.still hc rfl hc' hmarks (hfits _ hbelow) fun k => ?_
      have := hheld k
      simp only [Machine.held, Control.held, heldFrames_cons, Frame.held, World.held_note] at *
      omega
    | _ => exact hfit.elim
  | @onRelease κ name todo rest fs hquiet hbelow =>
    cases a with
    | reply r =>
      refine sound_releaseStep h hc rfl rfl hbelow hquiet fun k => ?_
      simp [Machine.held, Control.held, Frame.held]
    | _ => exact hfit.elim
  | owningHandles _ | owningFibers _ => cases a <;> exact hfit.elim

section Panic

variable {p : Panic} {f : Frame C} {κ : Awaited}

theorem sound_panic_pop (h : Sound δ ⟨w, .unwind (.panic p), f :: fs⟩) (hmark : f.mark? = none)
    (hκ : Awaits (w.fates (.unwind (.panic p))) κ fs) (hopen : κ.IsOpen)
    (hclosing : ∀ g, κ.closing? = some g → ¬ (w.generator g).Parked) :
    Sound δ ⟨w, .unwind (.panic p), fs⟩ := by
  obtain ⟨-, -, hp, -⟩ := h.order
  refine h.still (Control.neutral_unwind _) rfl (fun _ => rfl) (by rw [marks_cons, hmark]; rfl)
    ⟨κ, hκ, hp, hopen, hclosing⟩ ?_
  intro k
  simp only [Machine.held, Control.held, heldFrames_cons]
  omega

/-- Before a panic goes on, what a frame holds is released. -/
theorem sound_panic_release {t : Task C} (h : Sound δ ⟨w, .unwind (.panic p), f :: fs⟩)
    (hmark : f.mark? = none) (hκ : Awaits (w.fates (.unwind (.panic p))) κ fs) (hopen : κ.IsOpen)
    (hop : κ.operand? = none) (ht : t.phase? = none)
    (hfits : t.Fits δ w (.unwinding (.panic p) :: fs) .unit) (hheld : ∀ k, t.held k ≤ f.held k) :
    Sound δ (task w (.unwinding (.panic p) :: fs) t) := by
  obtain ⟨-, -, hp, -⟩ := h.order
  have hmarks : marks (f :: fs) = marks fs := by
    rw [marks_cons, hmark]
    rfl
  refine h.still (Control.neutral_unwind _) rfl (fun _ => by simp [ht])
    (by simpa using hmarks.symm) ⟨.unit, .unwinding hp hopen hop hκ, hfits⟩ ?_
  intro k
  have := hheld k
  simp only [Machine.held, Control.held, heldFrames_cons, held_unwinding]
  omega

/-- Before a panic goes on, what a step has taken gets its name back. -/
theorem sound_panic_naming (h : Sound δ ⟨w, .unwind (.panic p), f :: fs⟩)
    (hmark : f.mark? = none) (hκ : Awaits (w.fates (.unwind (.panic p))) .reply fs) :
    Sound δ (answer w (.unwinding (.panic p) :: fs) .unit) ∧
      Awaits (w.fates (.answer .unit)) .unit (.unwinding (.panic p) :: fs) ∧
      ∀ k, w.held k + f.held k + heldFrames k (.unwinding (.panic p) :: fs) ≤
        (w.generator k).handles := by
  have hc : (Control.unwind (.panic p) : Control C).Neutral := Control.neutral_unwind _
  obtain ⟨-, -, hp, -⟩ := h.order
  have hmarks : marks (f :: fs) = marks fs := by
    rw [marks_cons, hmark]
    rfl
  have hframe (k : GeneratorId) :
      heldFrames k (.unwinding (.panic p) :: fs) = heldFrames k fs := by
    simp
  have howned (k : GeneratorId) : w.held k + f.held k + heldFrames k fs ≤
      (w.generator k).handles := by
    have hall : w.held k + 0 + (f.held k + heldFrames k fs) ≤ (w.generator k).handles := h.owned k
    omega
  have hunwinding {F : Fates} (hκ : Awaits F .reply fs) :
      Awaits F .unit (.unwinding (.panic p) :: fs) :=
    .unwinding (κ := .reply) hp ⟨nofun, nofun⟩ rfl hκ
  refine ⟨?_, hunwinding (hκ.mono ((World.Alike.refl w).fates_le hc)), ?_⟩
  · refine h.restack hc rfl (fun _ => rfl) (by simpa using hmarks.symm)
      ⟨.unit, hunwinding hκ, trivial, nofun⟩ ?_
    intro k
    have := howned k
    rw [hframe]
    simp only [Control.held]
    omega
  · intro k
    rw [hframe]
    exact howned k

theorem sound_panic_driving (h : Sound δ ⟨w, .unwind (.panic p), .driving g :: fs⟩)
    (hκ : Awaits (w.fates (.unwind (.panic p))) κ fs) (hop : κ = .progress g ∨ κ = .pursued g)
    (hout : g ∉ chain fs) : Sound δ ⟨leaveProducer w g, .unwind (.panic p), fs⟩ := by
  obtain ⟨-, -, hp, -⟩ := h.order
  have hrest : Rest (marks (.driving g :: fs)) g (w.generator g) := h.rest rfl
  obtain ⟨hinside, hslots⟩ := hrest.inside (by simp)
  obtain ⟨size, hf⟩ := hinside.entered
  have hlt : g < w.generators.size := w.lt_size_of_started hinside.started
  obtain ⟨hin, hun⟩ := not_or.mp (mt mem_chain_iff.mpr hout)
  have hb : w.Becomes g _ (leaveProducer w g) := (World.Becomes.refl g w).modify (.inl hlt)
  have hdead : ((leaveProducer w g).generator g).Dead := ⟨size, by rw [hb.self, hf]; rfl⟩
  refine sound_leaveProducer h (Control.neutral_unwind _) (fun _ => rfl) hb rfl (hb.self ▸ hdead)
    (.none fun _ => rfl) (fun _ => rfl) ?_ ?_
  · intro hle
    refine ⟨κ, hκ.mono hle, hp, ?_, ?_⟩
    · rcases hop with rfl | rfl <;> exact ⟨nofun, nofun⟩
    · intro k hk
      have hkg : k = g := by
        rcases hop with rfl | rfl
        · cases hk
        · exact (Option.some.inj hk).symm
      rw [hkg]
      exact hdead.not_parked
  · refine ⟨fun h => absurd h hin, fun h => absurd h hun, fun _ _ => ⟨⟨rfl, { hslots with },
      fun hs => ?_, fun _ => ⟨{ hinside.started with }, .inr ⟨hb.self ▸ hdead, rfl⟩⟩,
      fun hs => ?_⟩, fun hs => ?_⟩⟩
    all_goals simp [hinside.started.status] at hs

/-- Before a panic goes on, one after another of what a frame owns is released. -/
theorem sound_panic_owning {t : Task C} {f' : Frame C}
    (h : Sound δ ⟨w, .unwind (.panic p), f :: fs⟩) (hmark : f.mark? = none)
    (hmark' : f'.mark? = none) (hκ : Awaits (w.fates (.unwind (.panic p))) .panic (f' :: fs))
    (ht : t.phase? = none)
    (hfits : t.Fits δ w (.unwinding (.panic p) :: f' :: fs) .unit)
    (hheld : ∀ k, t.held k + f'.held k = f.held k) :
    Sound δ (task w (.unwinding (.panic p) :: f' :: fs) t) := by
  obtain ⟨-, -, hp, -⟩ := h.order
  refine h.still (Control.neutral_unwind _) rfl (fun _ => by simp [ht])
    (by rw [marks_cons, marks_cons, marks_cons, hmark, hmark']; rfl)
    ⟨.unit, .unwinding (κ := .panic) hp ⟨nofun, nofun⟩ rfl hκ, hfits⟩ ?_
  intro k
  have := hheld k
  simp only [Machine.held, Control.held, heldFrames_cons, held_unwinding]
  omega

theorem sound_leave_panic (h : Sound δ ⟨w, .unwind (.panic p), fs⟩) :
    Sound δ (leave w (.panic p) fs) := by
  obtain ⟨κ, hκ, hp, hopen, hparked⟩ := h.order
  have hκ : Awaits (w.fates (.unwind (.panic p))) κ fs := hκ
  have hc : (Control.unwind (.panic p) : Control C).Neutral := Control.neutral_unwind _
  cases hκ with
  | nothing => exact h
  | scope hbelow =>
    exact sound_panic_release h rfl hbelow ⟨nofun, nofun⟩ rfl rfl rfl fun _ => Nat.le_refl _
  | closure hbelow =>
    exact sound_panic_release h rfl hbelow ⟨nofun, nofun⟩ rfl rfl (.inl rfl) fun _ => Nat.le_refl _
  | driving hbelow hop hout => exact sound_panic_driving h hbelow hop hout
  | switching hbelow =>
    obtain ⟨hback, hκ, howned⟩ := sound_panic_naming h rfl hbelow
    exact sound_nameFiber hback hκ trivial (.inl rfl) howned
  | cancelledScope _ | cancelledClosure _ | destroying _ _ | dismantling _ =>
    exact absurd rfl hopen.2
  | entering hbelow | resuming hbelow => exact sound_panic_pop h rfl hbelow ⟨nofun, nofun⟩ nofun
  | @calling catches k fs hbelow =>
    cases catches with
    | false => exact sound_panic_pop h rfl hbelow ⟨nofun, nofun⟩ nofun
    | true =>
      refine h.still hc rfl (fun _ => rfl) rfl ⟨.code, hbelow, rfl⟩ ?_
      intro k
      simp [Machine.held, Control.held, Frame.held]
  | pulling hbelow => exact sound_panic_pop h rfl hbelow ⟨nofun, nofun⟩ nofun
  | viewing _ hbelow =>
    exact sound_panic_release h rfl hbelow ⟨nofun, nofun⟩ rfl rfl rfl fun _ => Nat.le_refl _
  | reporting _ hbelow => exact sound_panic_pop h rfl (.holding hbelow) ⟨nofun, nofun⟩ nofun
  | holding hbelow =>
    exact sound_panic_release h rfl hbelow ⟨nofun, nofun⟩ rfl rfl rfl fun _ => Nat.le_refl _
  | pullingNamed hbelow | endingNamed hbelow =>
    obtain ⟨hback, hκ, howned⟩ := sound_panic_naming h rfl hbelow
    exact sound_nameIterator hback hκ trivial (.inl rfl) howned
  | keeping _ _ hopen' hended hbelow =>
    exact sound_panic_pop h rfl hbelow hopen' fun g hg =>
      not_parked_of_ended h hc (hended g (Awaited.operand?_of_closing? hg))
  | @unwinding p' κ fs hp' hopen' hop hbelow =>
    refine h.still hc rfl (fun _ => rfl) rfl ⟨κ, hbelow, trivial⟩ ?_
    intro k
    simp [Machine.held, Control.held, Frame.held]
  | @cancelling fs hbelow =>
    refine h.still hc rfl (fun _ => rfl) rfl ⟨.cancel, hbelow, trivial⟩ ?_
    intro k
    simp [Machine.held, Control.held, Frame.held]
  | @catching a κ fs hfit hopen' hclosing hbelow =>
    refine h.still hc rfl (fun _ => rfl) rfl ⟨κ, hbelow, hfit, ?_⟩ ?_
    · intro g hg
      simp [hclosing] at hg
    · intro k
      simp [Machine.held, Control.held, Frame.held]
  | closing hbelow _ _ =>
    refine sound_panic_pop h rfl hbelow ⟨nofun, nofun⟩ ?_
    rintro _ ⟨⟩
    exact hparked _ rfl
  | violating hbelow hended =>
    refine sound_panic_pop h rfl hbelow ⟨nofun, nofun⟩ ?_
    rintro _ ⟨⟩
    exact not_parked_of_ended h hc hended
  | dropping hbelow hknown hout =>
    exact sound_abandoning h hc rfl (.unwinding (κ := .unit) hp ⟨nofun, nofun⟩ rfl hbelow) rfl rfl
      hout (hparked _ rfl) (fun _ => rfl) fun _ => by simp [Frame.held]
  | emptying _ _ _ => exact absurd rfl hopen.1
  | @cleaning todo last fs hbelow =>
    obtain ⟨c', fs', heq, hc', hmarks, hheld, hfits⟩ :=
      clean_eq (δ := δ) (w := w.note (.onCleanup (.panicked p.message))) fs todo last
    simp only [leave, heq]
    refine h.still hc rfl hc' hmarks (hfits _ hbelow) ?_
    intro k
    have := hheld k
    simp only [Machine.held, Control.held, heldFrames_cons, Frame.held, World.held_note] at *
    omega
  | onRelease hquiet hbelow =>
    refine sound_releaseStep h hc rfl rfl hbelow hquiet ?_
    intro k
    simp [Machine.held, Control.held, Frame.held]
  | @owningHandles gs fs hbelow =>
    cases gs with
    | nil => exact sound_panic_pop h rfl hbelow ⟨nofun, nofun⟩ nofun
    | cons g gs =>
      refine sound_panic_owning h rfl rfl (.owningHandles hbelow) rfl rfl ?_
      intro k
      simp [Task.held, Frame.held]
  | @owningFibers announced fibers fs hbelow =>
    cases fibers with
    | nil => exact sound_panic_pop h rfl hbelow ⟨nofun, nofun⟩ nofun
    | cons fiber rest =>
      refine sound_panic_owning h rfl rfl (.owningFibers hbelow) rfl rfl ?_
      intro k
      simp [Task.held, Frame.held]

end Panic

theorem sound_leave_cancel (h : Sound δ ⟨w, .unwind .cancel, fs⟩) :
    Sound δ (leave w .cancel fs) := by
  obtain ⟨κ, hκ, hcancel⟩ := h.order
  obtain rfl : κ = .cancel := hcancel
  have hκ : Awaits (w.fates (.unwind .cancel)) .cancel fs := hκ
  have hc : (Control.unwind .cancel : Control C).Neutral := Control.neutral_unwind _
  generalize hcancel : Awaited.cancel = κ at hκ
  cases hκ with
  | @cancelledScope s fs hbelow =>
    refine h.still hc rfl (fun _ => rfl) rfl ⟨.unit, .cancelling hbelow, rfl⟩ fun k => ?_
    simp only [Machine.held, Control.held, Task.held, heldFrames_cons, Frame.held]
    omega
  | @cancelledClosure captures fs hbelow =>
    refine h.still hc rfl (fun _ => rfl) rfl ⟨.unit, .cancelling hbelow, .inl rfl⟩ fun k => ?_
    simp [Machine.held, Control.held, Task.held, Frame.held]
  | @destroying g fs hbelow hout =>
    have hrest : Rest (marks (.destroying g :: fs)) g (w.generator g) := h.rest rfl
    have hunwound := hrest.unwound (by simp)
    have hlt : g < w.generators.size := w.lt_size_of_running hunwound.running
    obtain ⟨hin, hun⟩ := not_or.mp (mt mem_chain_iff.mpr hout)
    have hf := hunwound.ended.fiber
    have hb : w.Becomes g _ (leaveProducer w g) := (World.Becomes.refl g w).modify (.inl hlt)
    refine h.change hb rfl id nofun (.none fun _ => rfl) (.task rfl) (fun μ hμ => by simp [hμ.2.1])
      (fun hle => ⟨.unit, hbelow.mono hle, rfl, fun hheld _ => ?_⟩) ?_ fun k => ?_
    · simp [hb.self] at hheld
    · refine .of_phase rfl (by decide) hin hun ⟨⟨hunwound.ended.status, by rw [hf]; rfl,
        fun hn => ?_⟩, rfl, fun hentry => ?_⟩
      · exact absurd hn (Option.isSome_iff_ne_none.mp hunwound.cleanup)
      · simp [hunwound.entry] at hentry
    · simp [Control.held, Task.held, Frame.held, Generator.held, hf]
  | @dismantling fs hbelow =>
    refine h.still hc rfl (fun _ => rfl) rfl ⟨.unit, hbelow, trivial, nofun⟩ fun k => ?_
    simp [Machine.held, Control.held, Frame.held]
  | viewing hop _ | reporting hop _ => rcases hop with rfl | rfl <;> cases hcancel
  | _ => cases hcancel

end Coroutine.Machine
