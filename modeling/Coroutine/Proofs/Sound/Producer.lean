import Coroutine.Proofs.Sound.Caller

/-! The requests of user code keep the invariant. -/

namespace Coroutine.Machine

variable {C : Type} {δ : GeneratorId → Prop} {w : World C} {c : C} {fs : List (Frame C)}

theorem sound_code {w' : World C} {c' : C} (h : Sound δ ⟨w, .code c, fs⟩)
    (hw : w'.generators = w.generators) (hheld : ∀ k, w'.held k ≤ w.held k) :
    Sound δ (code w' fs c') := by
  obtain ⟨κ, hκ, hfit⟩ := h.order
  refine h.still (Control.neutral_code c) hw (fun _ => rfl) rfl ⟨κ, hκ, hfit⟩ fun k => ?_
  have := hheld k
  simp only [Machine.held, Control.held]
  omega

theorem sound_yield {v : Value} {k : Except Exception (Option Value) → C}
    (h : Sound δ ⟨w, .code c, fs⟩) : Sound δ (yield w fs v k) := by
  obtain ⟨κ, hκ, hfit⟩ := h.order
  obtain rfl : κ = .code := hfit
  have hκ : Awaits (w.fates (.code c)) .code fs := hκ
  obtain ⟨scopes, captures, rest, rfl, hout⟩ := hκ.code_cases
  rcases hout.outcome_cases with ⟨g, κ, rest, rfl, hbelow, hop, hchain⟩ |
    ⟨f, size, rest, rfl, hbelow⟩
  · have hrest : Rest (marks (stackFiber scopes captures (.driving g :: rest))) g (w.generator g) :=
      h.rest rfl
    obtain ⟨hinside, hslots⟩ := hrest.inside (by simp)
    obtain ⟨w', size, hyield, hb⟩ := yield_driving rest scopes captures v k hinside.entered hslots
      (w.lt_size_of_started hinside.started)
    rw [hyield]
    refine h.change hb rfl id (by rintro _ ⟨⟩) (.none fun _ => rfl) (.task rfl)
      (fun μ hμ => by simp [hμ.1])
      (fun hle => ⟨κ, hbelow.mono hle, hop⟩) ?_ ?_
    · obtain ⟨hin, hun⟩ := not_or.mp (mt mem_chain_iff.mpr hchain)
      exact .of_phase rfl (by decide) hin hun ⟨{ hinside.started with }, rfl,
        ⟨size, k, scopes, captures, rfl⟩, hinside.payloadHeld, rfl, hslots.error, hslots.outcome⟩
    · obtain ⟨size', hf⟩ := hinside.entered
      intro k
      simp [Control.held, Task.held, Frame.held, Generator.held, FiberState.held, hf]
  · have hall (k : GeneratorId) : w.held k + heldScopes k scopes + heldFrames k rest ≤
        (w.generator k).handles := by
      simpa [Machine.held, Control.held, Frame.held, Nat.add_assoc] using h.owned k
    have h : Sound δ (reply w rest (.switched false)) := by
      refine h.restack (Control.neutral_code c) rfl (fun _ => rfl) (by simp)
        ⟨.reply, hbelow, trivial, by rintro _ ⟨⟩⟩ ?_
      intro k
      have := hall k
      simp only [Control.held]
      omega
    simp only [yield, splitFiber_eq_some_iff.mpr rfl]
    exact sound_nameFiber h h.awaits_reply trivial (.inr rfl) hall

theorem sound_holdIterator {name : String} {into : Bool} {k : Bool → C}
    (h : Sound δ ⟨w, .code c, fs⟩) : Sound δ (holdIterator w fs name into k) := by
  obtain ⟨κ, hκ, hfit⟩ := h.order
  obtain rfl : κ = .code := hfit
  have howned (k : GeneratorId) : w.held k + heldFrames k fs ≤ (w.generator k).handles := by
    simpa [Machine.held, Control.held] using h.owned k
  simp only [holdIterator]
  split
  · exact sound_code h rfl fun _ => Nat.le_refl _
  next g hfind =>
  cases into with
  | false =>
    refine h.retain (Control.neutral_code c) (h.pos_of_handle hfind) (fun _ => rfl) rfl
      ⟨.code, .scope hκ, rfl⟩ fun k => ?_
    have := howned k
    simp only [Control.held, heldFrames_cons, Frame.held, Scope.held, sourceHeld, Option.map_some,
      Option.getD_some]
    omega
  | true =>
    refine h.restack (Control.neutral_code c) rfl (fun _ => rfl) rfl ⟨.code, .scope hκ, rfl⟩
      fun k => ?_
    have := howned k
    have := w.held_erase_handle (g := k) name
    simp only [hfind, sourceHeld, Control.held, heldFrames_cons, Frame.held, Scope.held,
      Option.map_some, Option.getD_some] at *
    show World.held k { w with handles := w.handles.erase name } + 0 + _ ≤ _
    omega

theorem sound_useView {g : GeneratorId} {v : View} {k : Reply → C} (h : Sound δ ⟨w, .code c, fs⟩) :
    Sound δ (useView w fs g v k) := by
  obtain ⟨κ, hκ, hfit⟩ := h.order
  obtain rfl : κ = .code := hfit
  have howned (k : GeneratorId) : w.held k + heldFrames k fs ≤ (w.generator k).handles := by
    simpa [Machine.held, Control.held] using h.owned k
  have hviewed (r : Reply) : Sound δ (code (w.note (.viewed r)) fs (k r)) :=
    sound_code h rfl fun _ => Nat.le_refl _
  simp only [useView]
  split
  · exact hviewed _
  next hnone =>
  have hpos : 0 < (w.generator g).handles := Nat.pos_of_ne_zero hnone
  -- a view is a handle, which the frame holds
  have hview {w' : World C} {t : Task C} {κ : Awaited} (hw : w'.generators = w.generators)
      (hheld : ∀ k, w'.held k ≤ w.held k) (hκ' : κ = .progress g ∨ κ = .closed g)
      (ht : t.phase? = none) (hno : ∀ k, t.held k = 0) (hfits : ∀ w' fs', t.Fits δ w' fs' κ) :
      Sound δ (task (w'.retain g) (.viewing g k :: fs) t) := by
    have h : Sound δ ⟨w', .code c, fs⟩ := sound_code h hw hheld
    have hgen (k : GeneratorId) : w'.generator k = w.generator k := by simp [World.generator, hw]
    have hκ : Awaits (w'.fates (.code c)) .code fs := by
      obtain ⟨κ, hκ, hfit⟩ := h.order
      obtain rfl : κ = .code := hfit
      exact hκ
    refine h.retain (Control.neutral_code c) (hgen g ▸ hpos) (fun _ => by simp [ht]) rfl
      ⟨κ, .viewing hκ' hκ, hfits _ _⟩ fun k => ?_
    have := howned k
    have := hheld k
    rw [hgen]
    simp only [Control.held, hno, heldFrames_cons, Frame.held]
    omega
  cases v with
  | resume sent =>
    exact hview rfl (fun _ => Nat.le_refl _) (.inl rfl) rfl (fun _ => rfl) fun _ _ => rfl
  | throw e =>
    exact hview rfl (fun _ => Nat.le_refl _) (.inl rfl) rfl (fun _ => rfl) fun _ _ => rfl
  | close =>
    exact hview rfl (fun _ => Nat.le_refl _) (.inr rfl) rfl (fun _ => rfl) fun _ _ => rfl
  | info => exact hviewed _
  | is name =>
    dsimp only
    split <;> exact hviewed _

theorem sound_append {g : GeneratorId} {v : Value} {c' : C} (h : Sound δ ⟨w, .code c, fs⟩) :
    Sound δ (code (w.modify g fun x =>
      if x.plain then x else { x with payload := x.payload.map (· ++ [v]) }) fs c') := by
  obtain ⟨κ, hκ, hfit⟩ := h.order
  obtain rfl : κ = .code := hfit
  have hc := Control.neutral_code c
  have halike (x : Generator C) :
      x.Alike (if x.plain then x else { x with payload := x.payload.map (· ++ [v]) }) := by
    split
    · exact .refl x
    · exact ⟨_, _, rfl, by simp⟩
  have hhandles (x : Generator C) : Generator.handles
      (if x.plain then x else { x with payload := x.payload.map (· ++ [v]) }) = x.handles := by
    split <;> rfl
  have hw := World.alike_modify (w := w) (g := g) halike hhandles
  refine h.neutral hc hw (fun _ => rfl) rfl ⟨.code, hκ.mono (hw.fates_le hc), rfl⟩ ?_
  intro k
  have hhandles := World.handles_modify (w := w) (g := g) hhandles k
  have hheld := World.held_modify_of_fiber (g := k) (w := w) (h := g) (φ := fun x =>
    if x.plain then x else { x with payload := x.payload.map (· ++ [v]) }) (by split <;> rfl)
  simp only [Machine.held, Control.held]
  omega

theorem sound_holdGenerator {name : String} {d : Definition C} {c' : C}
    (h : Sound δ ⟨w, .code c, fs⟩) :
    Sound δ (nameHandle (w.addGenerator d).2 (.entering (.generator name) c' :: fs) name
      (w.addGenerator d).1 .unit) := by
  obtain ⟨κ, hκ, hfit⟩ := h.order
  obtain rfl : κ = .code := hfit
  have howned (k : GeneratorId) :
      w.held k + heldFrames k (.entering (.generator name) c' :: fs) ≤
        (w.generator k).handles := by
    simpa [Machine.held, Control.held, Frame.held, Scope.held] using h.owned k
  have hnew : Sound δ
      ⟨(w.addGenerator d).2, .answer .unit, .entering (.generator name) c' :: fs⟩ :=
    h.addGenerator (Control.neutral_code c) d (fun _ => rfl) rfl
      ⟨.unit, .entering hκ, trivial, nofun⟩ howned
  obtain ⟨κ, hentering, -⟩ := hnew.order
  cases hentering with
  | entering hκ =>
    exact sound_nameHandle hnew (.entering hκ) trivial (.inl rfl) fun k =>
      World.owned_addGenerator d (howned k)

theorem sound_grant {r : Request C} (h : Sound δ ⟨w, .code c, fs⟩) : Sound δ (grant w fs r) := by
  obtain ⟨κ, hκ, hfit⟩ := h.order
  obtain rfl : κ = .code := hfit
  have hκ : Awaits (w.fates (.code c)) .code fs := hκ
  have hc := Control.neutral_code c
  have howned (k : GeneratorId) : w.held k + heldFrames k fs ≤ (w.generator k).handles := by
    simpa [Machine.held, Control.held] using h.owned k
  have hsame {w' : World C} {k : GeneratorId} : w'.held k ≤ w'.held k := Nat.le_refl _
  cases r with
  | finish r =>
    refine h.restack hc rfl (fun _ => rfl) rfl ⟨.code, hκ, trivial, nofun⟩ fun k => ?_
    exact howned k
  | panic message =>
    refine h.restack hc rfl (fun _ => rfl) rfl ⟨.code, hκ, nofun, ⟨nofun, nofun⟩, nofun⟩ fun k => ?_
    exact howned k
  | silent c' => exact sound_code h rfl fun _ => hsame
  | yield v k => exact sound_yield h
  | emit v c' => exact sound_code h rfl fun _ => hsame
  | producerName c' =>
    simp only [grant]
    split <;> exact sound_code h rfl fun _ => hsame
  | append v c' =>
    simp only [grant]
    split
    · exact sound_code h rfl fun _ => hsame
    · exact sound_append h
  | make e k => exact sound_code h rfl fun _ => hsame
  | wrap e k => exact sound_code h rfl fun _ => hsame
  | caught e name c' => exact sound_code h rfl fun _ => hsame
  | hold guard c' =>
    refine h.restack hc rfl (fun _ => rfl) rfl ⟨.code, .scope hκ, rfl⟩ fun k => ?_
    have := howned k
    simpa [World.holdGuards, World.held, Control.held, Frame.held, Scope.held] using howned k
  | holdGenerator name d c' => exact sound_holdGenerator h
  | holdIterator name into k => exact sound_holdIterator h
  | pull k =>
    simp only [grant]
    split
    · next g rest =>
      refine h.restack hc rfl (fun _ => rfl) rfl ⟨_, .pulling hκ, rfl⟩ fun k => ?_
      simpa [Control.held, Task.held, Frame.held] using howned k
    · exact sound_code h rfl fun _ => hsame
  | leave c' =>
    simp only [grant]
    split
    · next s rest =>
      cases hκ with
      | scope hκ =>
        refine h.restack hc rfl (fun _ => rfl) rfl ⟨_, .resuming hκ, rfl⟩ fun k => ?_
        have := howned k
        simp only [heldFrames_cons, Control.held, Task.held, Frame.held] at *
        omega
    · exact sound_code h rfl fun _ => hsame
  | call s catchesPanics k =>
    refine h.restack hc rfl (fun _ => rfl) rfl ⟨_, .calling hκ, rfl⟩ fun k => ?_
    simpa [Control.held, Task.held, Frame.held] using howned k
  | view v c' =>
    simp only [grant]
    split
    · exact sound_code h rfl fun _ => hsame
    · exact sound_useView h

end Coroutine.Machine
