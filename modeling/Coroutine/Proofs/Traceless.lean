import Coroutine.Proofs.Omission
import Coroutine.Proofs.Stackless

/-! Operations that fail leave no trace. Main statement: over every run in which stacks can be allocated,
an operation that is turned away has changed nothing and run nothing, and sessions go on as if it had
never been asked for. A generator that no stack can be allocated for is turned away whenever it is
resumed; it never runs, and is finalized all the same. -/

namespace Coroutine

variable {C : Type}

namespace Machine

variable {P : Program C} {g : GeneratorId} {w : World C} {fs : List (Frame C)} {m m' b x : Machine C}
  {ms : List (Machine C)}

/-- Sessions go on as they do if nothing is left out. -/
theorem omitting_refl (h : Reachable P m) : Omitting P m m := by
  induction h with
  | start stackMemory s => exact .start stackMemory s
  | move _ ih => exact ih.move
  | again s _ hcompleted ih => exact ih.again s hcompleted hcompleted

/-- What can be left out once can be left out of every session that omits something else. -/
theorem exists_omitting (h : Omitting P m b) (hmatches : Matches m b) (hrefuses : Refuses P m m')
    (hskips : Skips P m x) : ∃ b', Skips P b b' ∧ Omitting P m' b' := by
  cases hmatches with
  | resembles hlike =>
    obtain ⟨b', hskips'⟩ := hskips.exists_resembling hlike
    exact ⟨b', hskips', h.skip hrefuses hskips'⟩
  | completed hm _ _ => exact absurd hm hskips.not_completed

/-- For an unused generator the answer is that there is no stack for it exactly if there cannot be
one. -/
theorem stackless_iff_fails (h : Run P (⟨w, .task (.resume g none), fs⟩ :: ms))
    (hmemory : maxStackSize ≤ w.stackMemory) (hs : (w.generator g).status = .unused) :
    (w.generator g).Stackless ↔ ∃ w' name size, Within P fs ⟨w, .task (.resume g none), fs⟩
      ⟨w', .answer (.progress (.error (.fiberAllocation name size))), fs⟩ := by
  constructor
  · intro hstackless
    have hdormant := dormant_of_stackless h.reachable hstackless
    exact ⟨_, _, _, (Refused.stackless hdormant.running hs
      (Generator.stackless_iff.mp hstackless)).within fs⟩
  · rintro ⟨w', name, size, hfails⟩
    obtain ⟨rs, hrefused⟩ := refused_of_resume h hmemory hfails rfl trivial
    cases hrefused with
    | stackless _ _ hrange => exact Generator.stackless_iff.mpr hrange

/-- What operations that fail leave behind. The run has come to `m`, and made the moves from `ms`
before. -/
structure Traceless (P : Program C) (m : Machine C) (ms : List (Machine C)) : Prop where
  /-- An operation that comes back with such an error has only made records, and it has run nothing. -/
  refused : ∀ w t g fs w' a e, m = ⟨w, .task t, fs⟩ → t.asks? = some g →
    Within P fs m ⟨w', .answer a, fs⟩ → a.error? = some e → e.TurnsAway (w.generator g) →
    ∃ rs, w' = w.recorded rs ∧ ∀ m₁, Within P fs m m₁ →
      m₁.frames = fs ∧ (∀ c, m₁.control ≠ .code c) ∧ (m₁.world = w ∨ m₁.world = w')
  /-- The step that asked for it leaves only the exception that it would have thrown. -/
  step : ∀ w s name g fs w' r, m = ⟨w, .task (.step s), fs⟩ → s.runs? = some name →
    w.handles.find? name = some g → Within P fs m ⟨w', .answer (.reply (.failed r)), fs⟩ →
    r.error.TurnsAway (w.generator g) → ∃ rs, w' = (s.prepare w).recorded rs
  /-- If the answer is ignored it can be left out of the run, whatever else is left out, -/
  omitted : ∀ b m' x, Omitting P m b → Refuses P m m' → Skips P m x →
    ∃ b', Skips P b b' ∧ Omitting P m' b'
  /-- and sessions go on as they do with it: -/
  alike : ∀ b, Omitting P m b → Matches m b
  /-- whatever is begun comes back with the same, -/
  results : ∀ b fs m', Omitting P m b → Resembles m b → Within P fs m m' →
    ∃ n, Within P fs b n ∧ Resembles m' n
  /-- and what happens is the same, but for what tells of the operations that were turned away. -/
  events : ∀ b, Omitting P m b → Omits m.world.history b.world.history ∧
    m.world.history.filter Event.isScripted = b.world.history.filter Event.isScripted
  /-- An unused generator that is resumed is turned away for the size of its stack exactly if there can
  be no stack of this size, -/
  allocation : ∀ w g fs, m = ⟨w, .task (.resume g none), fs⟩ → (w.generator g).status = .unused →
    ((w.generator g).Stackless ↔ ∃ w' name size,
      Within P fs m ⟨w', .answer (.progress (.error (.fiberAllocation name size))), fs⟩) ∧
    ∀ w' name size,
      Within P fs m ⟨w', .answer (.progress (.error (.fiberAllocation name size))), fs⟩ →
      name = (w.generator g).name ∧ size = (w.generator g).stackSize
  /-- and then control has never been inside of it and never will be. -/
  silent : ∀ g, g < m.world.generators.size → (m.world.generator g).Stackless →
    (∀ k ∈ m :: ms, Dormant (k.world.generator g) ∧ g ∉ chain k.frames) ∧
    ∀ k, Later P m k → Dormant (k.world.generator g) ∧ g ∉ chain k.frames
  /-- It is finalized when an exception is thrown into it, when it is closed or when its last handle is
  dropped: its entry procedure is released and its cleanup called. -/
  dismissed : ∀ w t g fs a, m = ⟨w, .task t, fs⟩ → (w.generator g).Stackless →
    (w.generator g).status = .unused → Dismisses g (w.generator g) t a →
    (w.generator g).entry.isSome ∧
    (∀ m', Within P fs m m' → Over m m' → Dismissed P g a fs m ms m') ∧
    (Settles P g m → ∃ w', Within P fs m ⟨w', .answer a, fs⟩)

/-- Over every run in which stacks can be allocated operations that fail leave no trace. -/
theorem traceless_of_run (h : Run P (m :: ms)) (hmemory : maxStackSize ≤ m.world.stackMemory) :
    Traceless P m ms := by
  have hm := h.reachable
  have homitting (b : Machine C) (hb : Omitting P m b) :
      Matches m b ∧ Omits m.world.history b.world.history := matches_of_omitting hb hmemory
  constructor
  case refused =>
    rintro w t g fs w' a e rfl ht hto ha he
    obtain ⟨rs, hrefused⟩ := refused_of_asks h hmemory ht hto ha he
    obtain ⟨rfl, -⟩ := (hrefused.within fs).unique hto
    exact ⟨rs, rfl, fun m₁ hm₁ => hrefused.between hm₁⟩
  case step =>
    rintro w s name g fs w' r rfl hs hfind hto he
    obtain ⟨t, rs, -, -, rfl⟩ := refused_of_failed h hmemory hs hfind hto he
    exact ⟨rs, rfl⟩
  case omitted =>
    exact fun b m' x hb hrefuses hskips => exists_omitting hb (homitting b hb).1 hrefuses hskips
  case alike => exact fun b hb => (homitting b hb).1
  case results => exact fun b fs m' _ hlike hto => hto.exists_resembling hlike
  case events => exact fun b hb => ⟨(homitting b hb).2, (homitting b hb).2.filter⟩
  case allocation =>
    rintro w g fs rfl hs
    refine ⟨stackless_iff_fails h hmemory hs, fun w' name size hto => ?_⟩
    obtain ⟨rs, hrefused⟩ := refused_of_resume h hmemory hto rfl trivial
    cases hrefused
    exact ⟨rfl, rfl⟩
  case silent =>
    intro g hg hstackless
    refine ⟨fun k hk => ?_, fun k hk => ?_⟩
    · have hdormant := dormant_of_run h hstackless k hk
      have hreachable : Reachable P k := by
        rcases List.mem_cons.mp hk with rfl | hk
        · exact hm
        · exact (h.of_mem hk).1
      exact ⟨hdormant, hdormant.not_mem_chain hreachable.sound⟩
    · have hreachable := hm.later hk
      have hdormant :=
        dormant_of_stackless hreachable (stackless_of_later hm hk hg hstackless)
      exact ⟨hdormant, hdormant.not_mem_chain hreachable.sound⟩
  case dismissed =>
    rintro w t g fs a rfl hstackless hs hdismisses
    exact ⟨(traced_of_run h hmemory g).unused hs,
      fun m' hto hover => dismissed_of_dismisses h hstackless hs hdismisses hto hover,
      exists_dismissed hm hstackless hs hdismisses⟩

/-- A session that has made a generator for which no stack can be allocated. -/
def tiny : Machine Unit :=
  next returning ⟨{ stackMemory := maxStackSize }, .task (.step (.create "g"
    ⟨"g", 0, some [], [⟨"captured", []⟩], [], none, ()⟩)), []⟩

/-- The generator is resumed twice, in vain, and then its handle is dropped. The first attempt can be
left out. -/
theorem traceless_of_tiny : ∃ (m b m₁ : Machine Unit) (ms ms₁ : List (Machine Unit)),
    Traceless returning m ms ∧ m.control = .task (.resume 0 none) ∧
      (m.world.generator 0).Stackless ∧ (m.world.generator 0).status = .unused ∧
      Omitting returning m b ∧ b.world.history ≠ m.world.history ∧
      Traceless returning m₁ ms₁ ∧ m₁.control = .task (.dropHandle 0) ∧
      (m₁.world.generator 0).Stackless ∧ (m₁.world.generator 0).status = .unused ∧
      Dismisses 0 (m₁.world.generator 0) (.dropHandle 0) .unit := by
  have hcreate : Run returning (tiny :: _) := (Run.start _ _).move
  have hcompleted : tiny.Completed := ⟨rfl, .inl ⟨_, rfl⟩⟩
  have hfailed := (hcreate.again (.resume "g" none) hcompleted).trail 7
  have hagain := (hfailed.again (.resume "g" none) ⟨rfl, .inl ⟨_, rfl⟩⟩).trail 1
  have hdrop := (hfailed.again (.drop "g") ⟨rfl, .inl ⟨_, rfl⟩⟩).trail 1
  have hfails : Within returning [] ⟨tiny.world, .task (.step (.resume "g" none)), []⟩ _ :=
    .of_task (List.suffix_refl []) rfl
      (Refused.within_step (g := 0) (.stackless rfl rfl rfl) (by decide))
  have homitting := (omitting_refl hcreate.reachable).again (.resume "g" none) hcompleted hcompleted
  have homitted := homitting.skip (.step rfl rfl hfails trivial) .outermost
  have hskipped := (homitted.again (.resume "g" none) ⟨rfl, .inl ⟨_, rfl⟩⟩ ⟨rfl, .inl ⟨_, rfl⟩⟩).move
  exact ⟨_, _, _, _, _, traceless_of_run hagain (by decide), rfl, .inl (by decide), rfl,
    hskipped, ne_of_apply_ne List.length (by decide),
    traceless_of_run hdrop (by decide), rfl, .inl (by decide), rfl, .drop rfl⟩

end Machine

end Coroutine
