import Coroutine.Proofs.Past
import Coroutine.Proofs.Refusal

/-! Calls that are left out. Main statement: a run from which operations are left out that are turned
away, and whose callers do not look at the answer, goes on as the run with them does; all that is
missing from its history is what tells of these operations. -/

namespace Coroutine

variable {C : Type}

/-! ### Histories -/

namespace Event

/-- What the event tells that a step or a view came back with. -/
def reply? : Event → Option Reply
  | called r | viewed r | onRelease _ r | onCleanup r => some r
  | _ => none

/-- The event tells that an operation has failed without an exception. -/
def TellsRefusal (e : Event) : Prop := ∃ r, e.reply? = some (.failed r) ∧ r.error.exception? = none

/-- The event is no record, and does not tell that an operation has failed without an exception. -/
def isScripted (e : Event) : Bool :=
  match e, e.reply? with
  | .logged _, _ => false
  | _, some (.failed r) => r.error.exception?.isSome
  | _, _ => true

theorem isScripted_of_tells {e : Event} (h : e.TellsRefusal) : e.isScripted = false := by
  obtain ⟨r, hreply, hexception⟩ := h
  cases e <;> simp_all [isScripted, reply?]

end Event

/-- What happens while an operation is turned away, the latest first: records are made, and then its
caller may be told. -/
inductive Rebuff : List Event → Prop
  | records (rs : List Record) : Rebuff (rs.map .logged)
  | told {e : Event} (rs : List Record) : e.TellsRefusal → Rebuff (e :: rs.map .logged)

/-- The second history is the first one without what happened while some operations were turned
away. -/
inductive Omits : List Event → List Event → Prop
  | nil : Omits [] []
  | kept {h h' : List Event} (e : Event) : Omits h h' → Omits (e :: h) (e :: h')
  | omitted {h h' es : List Event} : Rebuff es → Omits h h' → Omits (es ++ h) h'

theorem Omits.refl (h : List Event) : Omits h h := by
  induction h with
  | nil => exact .nil
  | cons e h ih => exact .kept e ih

theorem Omits.append {h h' : List Event} (homits : Omits h h') (es : List Event) :
    Omits (es ++ h) (es ++ h') := by
  induction es with
  | nil => exact homits
  | cons e es ih => exact .kept e ih

theorem Rebuff.filter {es : List Event} (h : Rebuff es) : es.filter Event.isScripted = [] := by
  have hrecords (rs : List Record) : (rs.map Event.logged).filter Event.isScripted = [] := by
    simp [Event.isScripted]
  cases h with
  | records rs => exact hrecords rs
  | told rs he => rw [List.filter_cons_of_neg (by simp [Event.isScripted_of_tells he]), hrecords]

/-- What scripts emit, and what their other calls come back with, is all there. -/
theorem Omits.filter {h h' : List Event} (homits : Omits h h') :
    h.filter Event.isScripted = h'.filter Event.isScripted := by
  induction homits with
  | nil => rfl
  | kept e _ ih => simp only [List.filter_cons, ih]
  | omitted hrebuff _ ih => rw [List.filter_append, hrebuff.filter, List.nil_append, ih]

namespace World

variable {w w' : World C}

theorem Resembles.prepare (h : w.Resembles w') (s : Step C) :
    (s.prepare w).Resembles (s.prepare w') := by
  have hforget (w : World C) : (s.prepare w).forget = s.prepare w.forget := by cases s <;> rfl
  rw [Resembles, hforget, hforget, h.eq]

theorem Resembles.prepare_view (h : w.Resembles w') (v : View) :
    (v.prepare w).Resembles (v.prepare w') := by
  have hforget (w : World C) : (v.prepare w).forget = v.prepare w.forget := by cases v <;> rfl
  rw [Resembles, hforget, hforget, h.eq]

theorem history_prepare (s : Step C) : (s.prepare w).history = w.history := by
  cases s <;> rfl

theorem history_prepare_view (v : View) : (v.prepare w).history = w.history := by
  cases v <;> rfl

end World

namespace Machine

variable {P : Program C} {g : GeneratorId} {w w' : World C} {fs : List (Frame C)}
  {a a' b b' m m' n : Machine C} {ms : List (Machine C)}

/-- What reads nothing of what has happened does the same in worlds that resemble each other. -/
theorem resembles_of_after {f : World C → Machine C} (hf : ∀ w es, f (w.after es) = (f w).after es)
    (h : w.Resembles w') : Resembles (f w) (f w') := by
  have hw : f w = (f w.forget).after w.history := hf w.forget w.history
  have hw' : f w' = (f w'.forget).after w'.history := hf w'.forget w'.history
  rw [hw, hw', h.eq]
  exact ⟨rfl, rfl, rfl⟩

/-! ### Calls -/

/-- In the first state an operation is asked for and turned away, and the second one is that in which
its caller goes on. -/
inductive Refuses (P : Program C) : Machine C → Machine C → Prop
  | step {name : String} {g : GeneratorId} {s : Step C} {w w' : World C} {fs : List (Frame C)}
      {r : ErrorReport} : s.runs? = some name → w.handles.find? name = some g →
      Within P fs ⟨w, .task (.step s), fs⟩ ⟨w', .answer (.reply (.failed r)), fs⟩ →
      r.error.TurnsAway (w.generator g) →
      Refuses P ⟨w, .task (.step s), fs⟩ (next P ⟨w', .answer (.reply (.failed r)), fs⟩)
  | view {v : View} {g : GeneratorId} {c c' : C} {k : Reply → C} {w w₀ w₁ w₂ : World C}
      {fs : List (Frame C)} {t : Task C} {x : Answer} {e : OpError} : P.next c = .view v k →
      next P ⟨w, .code c, fs⟩ = ⟨w₀, .task t, .viewing g k :: fs⟩ →
      Within P (.viewing g k :: fs) ⟨w₀, .task t, .viewing g k :: fs⟩
        ⟨w₁, .answer x, .viewing g k :: fs⟩ →
      x.error? = some e → e.TurnsAway (w.generator g) →
      Within P (.resuming c' :: fs) (next P ⟨w₁, .answer x, .viewing g k :: fs⟩)
        ⟨w₂, .answer .unit, .resuming c' :: fs⟩ →
      Refuses P ⟨w, .code c, fs⟩ (next P ⟨w₂, .answer .unit, .resuming c' :: fs⟩)

/-- In the first state an operation is asked for by a caller who does not look at the answer, and the
second one is that in which he goes on if it is left out. An exception that would be thrown has been
made then. -/
inductive Skips (P : Program C) : Machine C → Machine C → Prop
  /-- Code that goes on as if it had asked for nothing. -/
  | called {s : Step C} {w : World C} {catchesPanics : Bool} {k : Reply → C} {c : C}
      {fs : List (Frame C)} : (∀ r, k r = c) →
      Skips P ⟨w, .task (.step s), .calling catchesPanics k :: fs⟩ (grant (s.prepare w) fs (.silent c))
  | viewed {v : View} {w : World C} {c c' : C} {k : Reply → C} {fs : List (Frame C)} :
      P.next c = .view v k → (∀ r, k r = c') →
      Skips P ⟨w, .code c, fs⟩ (grant (v.prepare w) fs (.silent c'))
  /-- A cleanup callback, which goes on with the steps that are still to be made, -/
  | cleaning {s : Step C} {w : World C} {todo : List (Step C)} {last : Option String}
      {fs : List (Frame C)} :
      Skips P ⟨w, .task (.step s), .cleaning todo last :: fs⟩ (clean (s.prepare w) fs todo last)
  /-- and so does release logic. -/
  | releasing {s : Step C} {w : World C} {name : String} {todo : List (Step C)}
      {rest : List (HeldGuard C)} {fs : List (Frame C)} :
      Skips P ⟨w, .task (.step s), .onRelease name todo rest :: fs⟩
        (releaseStep (s.prepare w) fs name todo rest)
  /-- A session, which may make another step. -/
  | outermost {s : Step C} {w : World C} :
      Skips P ⟨w, .task (.step s), []⟩ ⟨s.prepare w, .answer .unit, []⟩

/-- Sessions get to the first state, and to the second one if some operations are left out that are
turned away, and whose callers do not look at the answer. -/
inductive Omitting (P : Program C) : Machine C → Machine C → Prop
  | start (stackMemory : Nat) (s : Step C) :
      Omitting P ⟨{ stackMemory }, .task (.step s), []⟩ ⟨{ stackMemory }, .task (.step s), []⟩
  | move {a b : Machine C} : Omitting P a b → Omitting P (a.next P) (b.next P)
  | again {a b : Machine C} (s : Step C) : Omitting P a b → a.Completed → b.Completed →
      Omitting P ⟨a.world, .task (.step s), []⟩ ⟨b.world, .task (.step s), []⟩
  | skip {a a' b b' : Machine C} : Omitting P a b → Refuses P a a' → Skips P b b' → Omitting P a' b'

/-- The two are alike, or a session has come to the end of a step in each of them. -/
inductive Matches (a b : Machine C) : Prop
  | resembles : Resembles a b → Matches a b
  | completed : a.Completed → b.Completed → a.world.Resembles b.world → Matches a b

theorem Matches.world (h : Matches a b) : a.world.Resembles b.world := by
  cases h with
  | resembles h => exact h.world
  | completed _ _ h => exact h

theorem Refuses.leads (h : Refuses P a a') : Leads P a a' := by
  cases h with
  | step _ _ hback _ => exact hback.leads.trans (.single _)
  | view _ hnext hback _ _ hdrop =>
    exact .move (hnext ▸ hback.leads.trans (.move (hdrop.leads.trans (.single _))))

theorem Omitting.reachable (h : Omitting P a b) : Reachable P a := by
  induction h with
  | start stackMemory s => exact .start stackMemory s
  | move _ ih => exact ih.move
  | again s _ ha _ ih => exact .again s ih ha
  | skip _ hrefuses _ ih => exact ih.leads hrefuses.leads

theorem Skips.not_completed (h : Skips P b b') : ¬ b.Completed := by
  rintro ⟨-, ⟨x, hx⟩ | ⟨u, hu⟩⟩ <;> cases h <;> simp_all

/-- What can be left out in one state can be left out in one that resembles it. -/
theorem Skips.exists_resembling (h : Skips P a a') (hlike : Resembles a b) : ∃ b', Skips P b b' := by
  obtain ⟨wb, cb, fsb⟩ := b
  obtain ⟨-, hcontrol, hframes⟩ := hlike
  obtain rfl : cb = _ := hcontrol
  obtain rfl : fsb = _ := hframes
  cases h with
  | called hk => exact ⟨_, .called hk⟩
  | viewed hP hk => exact ⟨_, .viewed hP hk⟩
  | cleaning => exact ⟨_, .cleaning⟩
  | releasing => exact ⟨_, .releasing⟩
  | outermost => exact ⟨_, .outermost⟩

/-- A call that can be left out makes no difference, but for what happens during it. -/
theorem matches_of_refuses (hrun : Run P (a :: ms)) (hmemory : maxStackSize ≤ a.world.stackMemory)
    (hlike : Resembles a b) (hrefuses : Refuses P a a') (hskips : Skips P b b') :
    Matches a' b' ∧ b'.world.history = b.world.history ∧
      ∃ es, Rebuff es ∧ a'.world.history = es ++ a.world.history := by
  obtain ⟨wb, cb, fsb⟩ := b
  obtain ⟨hworld, hcontrol, hframes⟩ := hlike
  cases hrefuses with
  | @step name g s w w' fs r hs hfind hback he =>
    obtain ⟨t, rs, -, hrefused, rfl⟩ := refused_of_failed hrun hmemory hs hfind hback he
    obtain rfl : cb = _ := hcontrol
    obtain rfl : fsb = _ := hframes
    have hprepared : ((s.prepare w).recorded rs).Resembles (s.prepare wb) := hworld.prepare s
    have htold {e : Event} (hreply : e.reply? = some (.failed r)) : Rebuff (e :: rs.map .logged) :=
      .told rs ⟨r, hreply, hrefused.exception?⟩
    have hhistory : ((s.prepare w).recorded rs).history = rs.map .logged ++ w.history :=
      congrArg _ (World.history_prepare s)
    cases hskips with
    | @called _ _ catchesPanics k c fs hk =>
      refine ⟨.resembles ⟨hprepared, congrArg Control.code (hk _).symm, rfl⟩, World.history_prepare s,
        _, htold (e := .called (.failed r)) rfl, congrArg (List.cons _) hhistory⟩
    | @cleaning _ _ todo last fs =>
      have hlike := resembles_of_after (f := fun w => clean w fs todo last)
        (fun _ _ => clean_after ..) (w := ((s.prepare w).recorded rs).note (.onCleanup (.failed r)))
        hprepared
      refine ⟨.resembles hlike, ?_, _, htold (e := .onCleanup (.failed r)) rfl, ?_⟩
      · rw [world_clean]
        exact World.history_prepare s
      · exact (congrArg World.history (world_clean ..)).trans (congrArg (List.cons _) hhistory)
    | @releasing _ _ name todo rest fs =>
      have hlike := resembles_of_after (f := fun w => releaseStep w fs name todo rest)
        (fun _ _ => releaseStep_after ..)
        (w := ((s.prepare w).recorded rs).note (.onRelease name (.failed r))) hprepared
      refine ⟨.resembles hlike, ?_, _, htold (e := .onRelease name (.failed r)) rfl, ?_⟩
      · rw [world_releaseStep]
        exact World.history_prepare s
      · exact (congrArg World.history (world_releaseStep ..)).trans (congrArg (List.cons _) hhistory)
    | outermost =>
      exact ⟨.completed ⟨rfl, .inl ⟨_, rfl⟩⟩ ⟨rfl, .inl ⟨_, rfl⟩⟩ hprepared, World.history_prepare s,
        _, .records rs, hhistory⟩
  | @view v g c c' k w w₀ w₁ w₂ fs t x e hP hnext hback hx he hdrop =>
    obtain ⟨rfl, rs, hrefused, rfl⟩ := refused_of_viewed hrun hmemory hP hnext hback hx he hdrop
    obtain rfl : cb = _ := hcontrol
    obtain rfl : fsb = _ := hframes
    cases hskips with
    | @viewed v' _ _ c'' _ _ hP' hk =>
    cases hP.symm.trans hP'
    refine ⟨.resembles ⟨hworld.prepare_view v, congrArg Control.code (hk _).symm, rfl⟩,
      World.history_prepare_view v, _,
      .told (e := .viewed (.failed ⟨e, 0, []⟩)) rs ⟨_, rfl, hrefused.exception?⟩, ?_⟩
    exact congrArg (_ :: rs.map .logged ++ ·) (World.history_prepare_view v)

theorem Matches.next (h : Matches a b) : Matches (a.next P) (b.next P) := by
  cases h with
  | resembles h => exact .resembles h.next
  | completed ha hb h =>
    rw [ha.next_eq, hb.next_eq]
    exact .completed ha hb h

/-- What is left out makes no difference, but that what happens during it is missing. -/
theorem matches_of_omitting (h : Omitting P a b) (hmemory : maxStackSize ≤ a.world.stackMemory) :
    Matches a b ∧ Omits a.world.history b.world.history := by
  induction h with
  | start stackMemory s => exact ⟨.resembles (.refl _), .refl _⟩
  | @move a b h ih =>
    obtain ⟨hmatches, homits⟩ := ih (memory_next P h.reachable.sound ▸ hmemory)
    refine ⟨hmatches.next, ?_⟩
    cases hmatches with
    | resembles hlike =>
      rw [history_next_eq, history_next_eq, hlike.happens]
      exact homits.append _
    | completed ha hb _ =>
      rw [ha.next_eq, hb.next_eq]
      exact homits
  | again s _ _ _ ih =>
    obtain ⟨hmatches, homits⟩ := ih hmemory
    exact ⟨.resembles ⟨hmatches.world, rfl, rfl⟩, homits⟩
  | @skip a a' b b' h hrefuses hskips ih =>
    have hmemory : maxStackSize ≤ a.world.stackMemory :=
      memory_of_leads h.reachable hrefuses.leads ▸ hmemory
    obtain ⟨hmatches, homits⟩ := ih hmemory
    obtain ⟨ms, hrun⟩ := reachable_iff_run.mp h.reachable
    cases hmatches with
    | resembles hlike =>
      obtain ⟨hmatches, hhistory, es, hrebuff, hhistory'⟩ :=
        matches_of_refuses hrun hmemory hlike hrefuses hskips
      rw [hhistory, hhistory']
      exact ⟨hmatches, .omitted hrebuff homits⟩
    | completed _ hb _ => exact absurd hb hskips.not_completed

/-- What is begun in both comes back with the same. -/
theorem Within.exists_resembling (h : Within P fs m m') (hlike : Resembles m n) :
    ∃ n', Within P fs n n' ∧ Resembles m' n' := by
  induction h generalizing n with
  | refl => exact ⟨n, .refl n, hlike⟩
  | move hfs hback _ ih =>
    obtain ⟨n', hto, hlike'⟩ := ih hlike.next
    refine ⟨n', .move (hlike.frames ▸ hfs) (fun a ha => ?_) hto, hlike'⟩
    rw [hlike.frames]
    exact hback a (hlike.control.symm.trans ha)

end Machine

end Coroutine
