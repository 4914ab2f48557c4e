import Coroutine.Proofs.Pipeline

/-! The end of a pipeline. Main statement: a pipeline that is closed, or whose last handle is dropped,
comes to its end from the innermost generator outwards, be frames unwound or not; an exception that is
thrown into it comes back then. -/

namespace Coroutine

variable {C : Type}

namespace Machine

variable {P : Program C} {m₀ m : Machine C} {w w₁ w' : World C} {fs fs' : List (Frame C)}
  {g : GeneratorId} {t : Task C} {s : Stage C} {rest stages : List (Stage C)}
  {scopes above : List (Scope C)} {captures : List (HeldGuard C)} {Q : World C → Prop}
  {a : Answer} {es : List Event} {c : Control C}

/-! ### What is recorded -/

theorem tells_of_releaseScope {scope : Scope C}
    (hm : Reachable P ⟨w, .task (.releaseScope scope), fs⟩)
    (h : Within P fs ⟨w, .task (.releaseScope scope), fs⟩ ⟨w', .answer a, fs⟩) :
    w.Tells w' scope.releases := by
  cases scope with
  | guard held =>
    have hrelease : Within P fs ⟨w, .task (.release [held]), fs⟩ ⟨w', .answer a, fs⟩ := h.of_ne nofun
    exact tells_of_release hm.move hrelease
  | generator | iterator => exact World.tells_nil (history_of_leads hm h.leads)

/-- When a payload has been released that is not in use, the cleanup has got it. -/
theorem tells_of_releasePayload (hm : Reachable P ⟨w, .task (.releasePayload g), fs⟩)
    (hcleanup : (w.generator g).cleanup.isSome) (hheld : (w.generator g).payloadHeld = false)
    (hplain : (w.generator g).plain = false)
    (h : Within P fs ⟨w, .task (.releasePayload g), fs⟩ ⟨w', .answer a, fs⟩) :
    ∃ payload, w.Tells w' [.cleanup g (w.generator g).name payload] := by
  obtain ⟨ms, hrun⟩ := reachable_iff_run.mp hm
  obtain ⟨steps, last, haccount, -⟩ := pending_of_run hrun hcleanup hplain
  have hcallback : (w.generator g).cleanup = some (.callback steps last) :=
    congrArg Account.cleanup haccount
  have hpayload : (w.generator g).payload = some (payloadOf P g ms) :=
    congrArg Account.payload haccount
  have hrest : Within P fs (releasePayload w fs g) ⟨w', .answer a, fs⟩ := h.of_ne nofun
  have hmove : Reachable P (releasePayload w fs g) := hm.move
  have hreleases := releases_releasePayload w fs g
  generalize releasePayload w fs g = m' at hreleases hrest hmove
  cases hreleases with
  | nothing hnone => cases hnone.symm.trans hcallback
  | lost _ hlost => cases hlost.symm.trans hheld
  | discarded hdiscarded _ hno =>
    have hsame := Option.some.inj (hdiscarded.symm.trans hcallback)
    exact absurd hsame (hno (Option.isSome_of_eq_some hpayload) steps last)
  | @paid w₁ _ _ payload _ _ _ _ hhistory =>
    refine ⟨payload, World.Tells.later ?_ (history_of_leads hmove hrest.leads)⟩
    refine ⟨[.cleanup g (w.generator g).name payload, .logged (.finalizes g (w.generator g).name)],
      ?_, List.sublist_append_right [_] [_]⟩
    rw [world_clean, hhistory]
    rfl

/-- Scopes on top can be released if the release of each of them keeps what the release of the others
starts with. -/
theorem sheds_append {I : World C → Prop} {w₀ : World C} (hm₀ : Reachable P m₀)
    (hscopes : ∀ scope ∈ above, ∀ w, I w → Returns P m₀ (.releaseScope scope) I w)
    (hrest : ∀ w, I w → w₀.Tells w (es ++ above.flatMap Scope.releases) →
      Sheds P m₀ captures Q scopes w)
    (hI : I w) (htold : w₀.Tells w es) : Sheds P m₀ captures Q (above ++ scopes) w := by
  induction above generalizing w es with
  | nil => exact hrest w hI (by simpa using htold)
  | cons scope above ih =>
    refine (hscopes scope (.head _) w hI).imp fun fs w' hlead hback hI' => ?_
    have htold' := htold.trans (tells_of_releaseScope (hm₀.leads hlead) hback)
    refine ih (fun s hs => hscopes s (.tail _ hs)) (fun w'' hI'' htold'' => hrest w'' hI'' ?_) hI' htold'
    simpa [List.append_assoc] using htold''

/-! ### The ends of the stages -/

/-- The stages make up a pipeline, and their producers let exceptions escape. -/
def Conducts (P : Program C) (w : World C) (stages : List (Stage C)) : Prop :=
  w.Pipeline (fun _ => LetsOut P) stages

theorem Conducts.parked (h : Conducts P w (s :: rest)) : (w.generator s.generator).Parked :=
  (h.suspended s (.head _)).parked

/-- What an operation on the first generator begins with leaves the pipeline as it is. -/
theorem Conducts.operated {x : Generator C} (h : Conducts P w (s :: rest))
    (ht : t.operates? = some s.generator ∨ t = .dropHandle s.generator)
    (hnext : next P ⟨w, .task t, fs⟩ = ⟨w₁, c, fs'⟩) (hb : w.Becomes s.generator x w₁)
    (hfiber : x.fiber = (w.generator s.generator).fiber)
    (hplain : x.plain = (w.generator s.generator).plain) : Conducts P w₁ (s :: rest) := by
  have hnames : (next P ⟨w, .task t, fs⟩).world.handles = w.handles := handles_perform ht
  rw [hnext] at hnames
  exact h.of_first (hb.concerns hnames) ⟨hb.self ▸ hfiber, hb.self ▸ hplain⟩

/-- Once control is switched into the first producer with an exception, the stages come to their ends,
and the exception comes back. -/
def Driven (P : Program C) (m₀ : Machine C) (s : Stage C) (rest : List (Stage C)) : Prop :=
  ∀ w fs e, Leads P m₀ ⟨w, .task (.drive s.generator), fs⟩ → Conducts P w (s :: rest) →
    (w.generator s.generator).error = some e →
    ∃ w', Within P fs ⟨w, .task (.drive s.generator), fs⟩
        ⟨w', .answer (.progress (.error (.raised e))), fs⟩ ∧ w.WindsUp w' (s :: rest)

/-- An exception that is thrown in comes back when the stages have come to their ends. -/
theorem Driven.exists_thrown {e : Exception} (hdriven : Driven P m₀ s rest) (hm₀ : Reachable P m₀)
    (hm : Leads P m₀ ⟨w, .task (.throw s.generator e), fs⟩) (h : Conducts P w (s :: rest)) :
    ∃ w', Within P fs ⟨w, .task (.throw s.generator e), fs⟩
        ⟨w', .answer (.progress (.error (.raised e))), fs⟩ ∧ w.WindsUp w' (s :: rest) := by
  have hreach := hm₀.leads hm
  have hparked := h.parked
  have hrest : Rest (Coroutine.marks fs) s.generator (w.generator s.generator) :=
    hreach.sound.rest rfl
  obtain ⟨hidle, hs⟩ := hrest.idle_of_parked hparked
  obtain ⟨w₁, hthrow, hb⟩ := throwInto_running fs hidle.running hs hidle.slots.error
    (w.lt_size_of_parked hparked) e
  have hthrow : next P ⟨w, .task (.throw s.generator e), fs⟩ =
    ⟨w₁, .task (.drive s.generator), fs⟩ := hthrow
  have hbegun : Within P fs ⟨w, .task (.throw s.generator e), fs⟩
      ⟨w₁, .task (.drive s.generator), fs⟩ :=
    .of_task (List.suffix_refl fs) hthrow (.refl _)
  obtain ⟨w₂, hraised, hends⟩ := hdriven w₁ fs e (hm.trans hbegun.leads)
    (h.operated (.inl rfl) hthrow hb rfl rfl) (by rw [hb.self])
  exact ⟨w₂, hbegun.trans hraised, hends.earlier (history_of_leads hreach hbegun.leads)⟩

/-- A pipeline that is closed comes to its end, -/
theorem Driven.exists_closed (hdriven : Driven P m₀ s rest) (hm₀ : Reachable P m₀)
    (hm : Leads P m₀ ⟨w, .task (.close s.generator), fs⟩) (h : Conducts P w (s :: rest)) :
    ∃ w', Within P fs ⟨w, .task (.close s.generator), fs⟩ ⟨w', .answer (.closed (.ok ())), fs⟩ ∧
      w.WindsUp w' (s :: rest) := by
  have hreach := hm₀.leads hm
  obtain ⟨size, k, scopes, captures, hf⟩ := h.parked
  obtain ⟨w₁, hclose, hb⟩ := next_of_close (P := P) hreach.sound hf
  have hbegun : Within P fs ⟨w, .task (.close s.generator), fs⟩
      ⟨w₁, .task (.drive s.generator), .closing s.generator :: fs⟩ :=
    .of_task (List.suffix_refl fs) hclose (.refl _)
  obtain ⟨w₂, hraised, hends⟩ := hdriven w₁ _ w.exitSignal (hm.trans hbegun.leads)
    (h.operated (.inl rfl) hclose hb rfl rfl) (by rw [hb.self])
  refine ⟨w₂, hbegun.trans (hraised.under.trans ?_),
    hends.earlier (history_of_leads hreach hbegun.leads)⟩
  have hfinish : next P ⟨w₂, .answer (.progress (.error (.raised w.exitSignal))),
      .closing s.generator :: fs⟩ = ⟨w₂, .answer (.closed (.ok ())), fs⟩ := rfl
  exact .move (List.suffix_cons _ fs) (fun _ _ => List.cons_ne_self _ _) (hfinish ▸ .refl _)

/-- and so does a pipeline whose last handle is dropped. -/
theorem Driven.exists_dropped (hdriven : Driven P m₀ s rest) (hm₀ : Reachable P m₀)
    (hm : Leads P m₀ ⟨w, .task (.dropHandle s.generator), fs⟩) (h : Conducts P w (s :: rest))
    (hlast : (w.generator s.generator).handles = 1) :
    ∃ w', Within P fs ⟨w, .task (.dropHandle s.generator), fs⟩ ⟨w', .answer .unit, fs⟩ ∧
      w.WindsUp w' (s :: rest) := by
  have hreach := hm₀.leads hm
  have hrest : Rest (Coroutine.marks fs) s.generator (w.generator s.generator) :=
    hreach.sound.rest rfl
  have hs : (w.generator s.generator).status ≠ .finished := by
    rw [(hrest.idle_of_parked (h.parked)).2]
    nofun
  obtain ⟨w₁, hdrop, hb⟩ := next_of_last (P := P) fs hlast hs
  have hbegun : Within P fs ⟨w, .task (.dropHandle s.generator), fs⟩
      ⟨w₁, .task (.close s.generator), .dropping s.generator :: fs⟩ :=
    .of_task (List.suffix_refl fs) hdrop (.refl _)
  obtain ⟨w₂, hclosed, hends⟩ := hdriven.exists_closed hm₀ (hm.trans hbegun.leads)
    (h.operated (.inr rfl) hdrop hb rfl rfl)
  have hto := hbegun.trans hclosed.under
  obtain ⟨w₃, hback⟩ := within_dropped (P := P) fs (.ok ()) (hends.finished s (.head _)).2
  have hends' := hends.later (hm₀.leads (hm.trans hto.leads)) hback.leads
  exact ⟨w₃, hto.trans hback, hends'.earlier (history_of_leads hreach hbegun.leads)⟩

/-- The scope that owns the last handle of a pipeline drops it when it is released. -/
theorem Conducts.exists_drop {scope : Scope C} (h : Conducts P w (s :: rest))
    (howns : w.Owns s.generator scope) (fs : List (Frame C)) :
    ∃ w₁, releaseScope w fs scope = task w₁ fs (.dropHandle s.generator) ∧
      Conducts P w₁ (s :: rest) ∧ w₁.generators = w.generators ∧ w₁.history = w.history := by
  cases howns with
  | iterator => exact ⟨w, rfl, h, rfl, rfl⟩
  | @named name hname =>
    refine ⟨{ w with handles := w.handles.erase name }, by simp only [releaseScope, hname], ?_, rfl, rfl⟩
    refine h.of_first ⟨fun _ _ => rfl, fun other hother => ?_⟩ ⟨rfl, rfl⟩
    have hne : other ≠ name := fun heq => hother (heq ▸ hname)
    simp [hne]

/-- The rest of a pipeline comes to its end when the scope that owns its last handle is released. -/
theorem sheds_link (hm₀ : Reachable P m₀)
    (hdriven : ∀ t rest', rest = t :: rest' → Driven P m₀ t rest') (h : Conducts P w rest)
    (hlinked : w.Linked (s :: rest))
    (hrest : ∀ w', w.WindsUp w' rest → Sheds P m₀ captures Q scopes w') :
    Sheds P m₀ captures Q (s.link.toList ++ scopes) w := by
  cases hlinked with
  | last hlink =>
    rw [hlink]
    exact hrest w ⟨nofun, [], .nil, World.tells_nil (List.suffix_refl _)⟩
  | @next _ t rest scope hlink howns hlast =>
    rw [hlink]
    intro fs hlead
    obtain ⟨w₁, hrelease, hpipeline, hsame, hhistory⟩ := h.exists_drop howns fs
    have hbegun : Within P fs ⟨w, .task (.releaseScope scope), fs⟩
        ⟨w₁, .task (.dropHandle t.generator), fs⟩ :=
      .of_task (List.suffix_refl fs) hrelease (.refl _)
    have hlast₁ : (w₁.generator t.generator).handles = 1 := by
      rw [World.generator, hsame]
      exact hlast
    obtain ⟨w₂, hdropped, hends⟩ := (hdriven t rest rfl).exists_dropped hm₀
      (hlead.trans hbegun.leads) hpipeline hlast₁
    exact ⟨w₂, hbegun.trans hdropped, hrest w₂ (hends.earlier (hhistory ▸ List.suffix_refl _))⟩

/-- Everything on the stack of the first producer is released, and the rest of the pipeline comes to its
end meanwhile. -/
theorem Gentle.sheds (hgentle : Gentle P m₀ stages) (hm₀ : Reachable P m₀)
    (hall : ∀ t ∈ s :: rest, t ∈ stages)
    (hdriven : ∀ t rest', rest = t :: rest' → Driven P m₀ t rest') (h : Conducts P w rest)
    (hlinked : w.Linked (s :: rest)) :
    Sheds P m₀ s.captures (fun w' => w'.Finished rest ∧ ∃ es, Unwinds rest es ∧
        w.Tells w' (s.above.flatMap Scope.releases ++ es ++ s.below.flatMap Scope.releases ++
          s.captures.map HeldGuard.release)) s.scopes w := by
  have hs : s ∈ stages := hall s (.head _)
  have hstart : w.Tells w [] := World.tells_nil (List.suffix_refl _)
  -- what is above the link leaves the rest of the pipeline as it is
  refine sheds_append (I := fun w => Conducts P w rest ∧ w.Linked (s :: rest)) hm₀ ?_ ?_
    ⟨h, hlinked⟩ hstart
  · rintro scope hscope w₁ ⟨hpipeline₁, hlinked₁⟩
    refine (hgentle.above s hs scope hscope w₁).imp fun fs w₂ hlead hback hsame => ?_
    have hkeeps (t : Stage C) (ht : t ∈ rest) :=
      hsame t (hall t (.tail _ ht)) (hpipeline₁.suspended t ht).parked
    exact ⟨hpipeline₁.kept (fun t ht => (hkeeps t ht).1)
      fun t ht => (hkeeps t (List.mem_of_mem_tail ht)).2, hlinked₁.kept fun t ht => (hkeeps t ht).2⟩
  rintro w₁ ⟨hpipeline₁, hlinked₁⟩ habove
  refine sheds_link hm₀ hdriven hpipeline₁ hlinked₁ fun w₂ hends => ?_
  obtain ⟨es, hes, htold⟩ := hends.told
  -- what is below it is released when the rest has come to its end
  suffices hbelow : Sheds P m₀ s.captures _ (s.below ++ []) w₂ by
    simpa only [List.append_nil] using hbelow
  refine sheds_append (I := fun w => w.Finished rest) hm₀ ?_ ?_ hends.finished (habove.trans htold)
  · intro scope hscope w₃ hfinished
    exact (hgentle.below s hs scope hscope w₃).imp fun fs w₄ hlead hback _ =>
      hfinished.later (hm₀.leads hlead) hback.leads
  intro w₃ hfinished hbelow
  refine (hgentle.captures s hs w₃).imp fun fs w₄ hlead hback _ => ?_
  refine ⟨hfinished.later (hm₀.leads hlead) hback.leads, es, hes, ?_⟩
  have htold' := hbelow.trans (tells_of_release (hm₀.leads hlead) hback)
  simpa only [List.nil_append] using htold'

/-- If the rest of a pipeline comes to its end, so does the whole of it. -/
theorem Gentle.driven_cons (hgentle : Gentle P m₀ stages) (hm₀ : Reachable P m₀)
    (hall : ∀ t ∈ s :: rest, t ∈ stages)
    (hdriven : ∀ t rest', rest = t :: rest' → Driven P m₀ t rest') : Driven P m₀ s rest := by
  intro w fs e hlead h herror
  have hs : s ∈ stages := hall s (.head _)
  have hlt : s.generator < w.generators.size := w.lt_size_of_parked h.parked
  have hm := hm₀.leads hlead
  have hfirst := h.suspended s (.head _)
  obtain ⟨size, k, hf, hquits⟩ := hfirst.fiber
  obtain ⟨w₁, hraised, hb₁, hnames⟩ : ∃ w₁, Within P fs ⟨w, .task (.drive s.generator), fs⟩
      ⟨w₁, .code (k (.error e)), stackFiber s.scopes s.captures (.driving s.generator :: fs)⟩ ∧ _ :=
    within_raised _ hf herror
  have hconcerns := hb₁.concerns hnames
  have hlinked₁ := h.linked.kept fun t ht => hconcerns.keepsHandles (h.ne_of_mem ht)
  -- the producer comes to its end, and what is on its stack is released
  obtain ⟨w₂, hended, hfinished, es, hes, htold⟩ := (hquits e).exists_outcome
    (hlead.trans hraised.leads) (hgentle.sheds hm₀ hall hdriven (h.rest_of_first hconcerns) hlinked₁)
  have hto₂ := hraised.trans hended.under
  have hm₂ := hm.leads hto₂.leads
  obtain ⟨w₃, hreleased, hb₃, hterminated⟩ := within_end hm₂
  have hto₃ := hto₂.trans hreleased
  have hm₃ := hm.leads hto₃.leads
  -- the cleanup is called last
  obtain ⟨w₄, hpaid, -⟩ := hgentle.payload s hs w₃ _ (hlead.trans hto₃.leads)
  have hrest₂ : Rest (Coroutine.marks (.driving s.generator :: fs)) s.generator
    (w₂.generator s.generator) := hm₂.sound.rest rfl
  have hcleanup : (w₃.generator s.generator).cleanup.isSome := by
    rw [hb₃.self]
    exact (hrest₂.inside (by simp)).1.started.cleanup
  have hplain : (w₃.generator s.generator).plain = false :=
    (plain_of_later hm (.of_leads hto₃.leads) hlt).2.trans hfirst.callback
  obtain ⟨payload, hcleaned⟩ :=
    tells_of_releasePayload hm₃ hcleanup (by rw [hb₃.self]) hplain hpaid
  have hname : (w₃.generator s.generator).name = (w₂.generator s.generator).name := by rw [hb₃.self]
  have hback : Within P fs ⟨w₃, .task (.releasePayload s.generator),
        .keeping (.progress (.error (.raised e))) :: fs⟩
      ⟨w₄, .answer (.progress (.error (.raised e))), fs⟩ :=
    hpaid.under.trans (.move (List.suffix_cons _ fs) (fun _ _ => List.cons_ne_self _ _) (.refl _))
  refine ⟨w₄, hto₃.trans hback, ?_, ?_⟩
  · have hrest₄ : w₄.Finished rest := hfinished.later hm₂ (hreleased.trans hback).leads
    have hself : w₃.Finished [s] := by
      rintro _ (_ | ⟨_, ⟨⟩⟩)
      exact ⟨(plain_of_later hm (.of_leads hto₃.leads) hlt).1, by rw [hb₃.self]⟩
    have hself₄ : w₄.Finished [s] := hself.later hm₃ hback.leads
    intro t ht
    rcases List.mem_cons.mp ht with rfl | ht
    · exact hself₄ _ (.head _)
    · exact hrest₄ t ht
  · refine ⟨_, .cons (w₂.generator s.generator).name payload hes, ?_⟩
    have htold₁ := htold.earlier (history_of_leads hm hraised.leads)
    have htold₄ := (htold₁.trans hterminated).trans (hname ▸ hcleaned)
    simpa only [List.append_assoc, List.cons_append, List.nil_append] using htold₄

/-- Stages come to their ends from the innermost one outwards. -/
theorem Gentle.driven (hgentle : Gentle P m₀ stages) (hm₀ : Reachable P m₀)
    (hall : ∀ t ∈ s :: rest, t ∈ stages) : Driven P m₀ s rest := by
  induction rest generalizing s with
  | nil => exact hgentle.driven_cons hm₀ hall nofun
  | cons t rest ih =>
    refine hgentle.driven_cons hm₀ hall fun t' rest' heq => ?_
    cases heq
    exact ih fun t' ht' => hall t' (.tail _ ht')

end Machine

end Coroutine
