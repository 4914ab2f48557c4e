import Coroutine.Proofs.Copies
import Coroutine.Proofs.Custody

/-! The order in which the guards of a generator are released. Main statement: a guard that is in
front of another one, on the stack of the producer or among what its entry procedure captured, has
been released, and its release logic is over, before the other one is released. -/

namespace Coroutine

variable {C : Type} {s : Nat} {g : GeneratorId} {held x y : HeldGuard C} {f : Frame C}
  {fs : List (Frame C)}

/-- The guards on the frames, those further up first. -/
def guardsOn (fs : List (Frame C)) : List (HeldGuard C) := fs.flatMap Frame.guards

/-! ### Where copies of a guard are -/

theorem FiberState.copies_eq (state : FiberState C) :
    state.copies s = copiesFrames s state.frames := by
  cases state with
  | fresh entry => simp [FiberState.copies, FiberState.frames, Frame.copies]
  | suspended k scopes captures =>
    have hstack := copiesFrames_stackFiber (s := s) scopes captures []
    simp only [copiesFrames_nil, Nat.add_zero] at hstack
    exact hstack.symm
  | _ => rfl

theorem copies_pos_of_guards (h : held ∈ f.guards) : 0 < f.copies held.serial := by
  cases f with
  | scope sc =>
    cases sc with
    | guard first => exact copiesOf_pos h
    | _ => cases h
  | closure captures => exact copiesOf_pos h
  | _ => cases h

theorem copies_le_copiesFrames (h : f ∈ fs) : f.copies s ≤ copiesFrames s fs :=
  List.single_le_sum (fun _ _ => Nat.zero_le _) _ (List.mem_map.mpr ⟨f, h, rfl⟩)

theorem World.copies_generator_le (w : World C) (g : GeneratorId) :
    (w.generator g).copies s + w.releases s ≤ w.copies s := by
  have hle : (w.generator g).copies s ≤ (w.generators.toList.map (Generator.copies s)).sum := by
    rw [generator_eq_getD]
    cases hx : w.generators.toList[g]? with
    | none => exact Nat.zero_le _
    | some x =>
      exact List.single_le_sum (fun _ _ => Nat.zero_le _) _
        (List.mem_map.mpr ⟨x, List.mem_of_getElem? hx, rfl⟩)
  simp only [World.copies]
  omega

namespace Machine

/-- The guard is with a generator or on the stack. -/
inductive Has (held : HeldGuard C) (m : Machine C) : Prop
  | entry (g : GeneratorId) (entry : Closure C) : (m.world.generator g).entry = some entry →
      held ∈ entry.captures → Has held m
  | fiber (g : GeneratorId) (fiber : Fiber C) (f : Frame C) :
      (m.world.generator g).fiber = some fiber → f ∈ fiber.state.frames → held ∈ f.guards →
      Has held m
  | stack (f : Frame C) : f ∈ m.frames → held ∈ f.guards → Has held m
  | waiting (name : String) (todo : List (Step C)) (rest : List (HeldGuard C)) :
      .onRelease name todo rest ∈ m.frames → held ∈ rest → Has held m

variable {P : Program C} {δ : GeneratorId → Prop} {m m' : Machine C} {ms : List (Machine C)}

theorem copies_of_has (h : Has held m) :
    m.world.releases held.serial + m.control.copies held.serial < m.copies held.serial := by
  have hworld := m.world.copies_generator_le (s := held.serial)
  have hframes {f : Frame C} (hf : f ∈ m.frames) (hpos : 0 < f.copies held.serial) :
      m.world.releases held.serial + m.control.copies held.serial < m.copies held.serial := by
    have hle := copies_le_copiesFrames (s := held.serial) hf
    have := hworld 0
    simp only [copies]
    omega
  cases h with
  | entry g entry hentry hheld =>
    have hpos := copiesOf_pos hheld
    have := hworld g
    simp only [Generator.copies, hentry, Option.map_some, Option.getD_some] at this
    simp only [copies]
    omega
  | fiber g fiber f hfiber hf hheld =>
    have hpos := copies_pos_of_guards hheld
    have hle := copies_le_copiesFrames (s := held.serial) hf
    rw [← FiberState.copies_eq] at hle
    have := hworld g
    simp only [Generator.copies, hfiber, Option.map_some, Option.getD_some] at this
    simp only [copies]
    omega
  | stack f hf hheld => exact hframes hf (copies_pos_of_guards hheld)
  | waiting name todo rest hf hheld => exact hframes hf (copiesOf_pos hheld)

/-- A guard that has been released, or is about to be, is nowhere else. -/
theorem not_has (h : Reachable P m)
    (hpos : 0 < m.world.releases held.serial + m.control.copies held.serial) : ¬ Has held m := by
  intro hhas
  have hless := copies_of_has hhas
  have hle := copies_le_one h held.serial
  omega

/-- `g` is being finalized while frames are unwound, and the guard is given up with its suspended
stack. -/
structure GivesUp (g : GeneratorId) (held : HeldGuard C) (m : Machine C) : Prop where
  control : m.control = .task (.finalize g)
  panicking : panicking m.frames = true
  held : ∃ fiber f, (m.world.generator g).fiber = some fiber ∧ f ∈ fiber.state.frames ∧
    held ∈ f.guards

theorem GivesUp.not_completed (h : GivesUp g held m) : ¬ m.Completed :=
  fun hm => hm.control_ne h.control

/-- A guard that is given up is nowhere any more. -/
theorem copies_of_givesUp (h : Reachable P m) (hm : GivesUp g held m) :
    (m.next P).copies held.serial = 0 := by
  obtain ⟨hcontrol, hpanicking, fiber, f, hfiber, hf, hheld⟩ := hm
  have hle := copies_le_one h held.serial
  have hpos : 0 < fiber.state.copies held.serial := by
    rw [FiberState.copies_eq]
    exact Nat.lt_of_lt_of_le (copies_pos_of_guards hheld) (copies_le_copiesFrames hf)
  obtain ⟨w, control, fs⟩ := m
  obtain rfl : control = _ := hcontrol
  have htaken : (w.modify g fun x => { x with fiber := none }).copies held.serial +
      fiber.state.copies held.serial ≤ w.copies held.serial :=
    World.copies_modify_sub (by simp [Generator.copies, hfiber])
  show (finalize w fs g).copies held.serial = 0
  cases hstate : fiber.state with
  | fresh entry =>
    have hat : At _ (Coroutine.marks fs) g (w.generator g) := h.sound.shape g
    obtain ⟨-, -, -, -, hfinal⟩ := hat.phase rfl (by decide)
    rcases hfinal with ⟨hended, -⟩ |
      ⟨-, -, -, ⟨⟨size, hdead⟩, -⟩ | ⟨⟨size, k, scopes, captures, hparked⟩, -⟩⟩
    · cases hended.fiber.symm.trans hfiber
    · cases hdead.symm.trans hfiber
      cases hstate
    · cases hparked.symm.trans hfiber
      cases hstate
  | suspended k scopes captures =>
    simp only [copies_mk, Control.copies, Task.copies] at hle
    simp [finalize, hfiber, hstate, hpanicking, task, Control.copies, Task.copies]
    omega
  | _ =>
    rw [hstate] at hf
    cases hf

theorem copies_of_run (h : Run P (m :: ms)) (hm₀ : m' ∈ ms) (hgivesUp : GivesUp g held m') :
    m.copies held.serial = 0 := by
  obtain ⟨hreach, -, hnext⟩ := h.of_mem hm₀
  have hle := copies_of_later (s := held.serial) (hnext hgivesUp.not_completed)
  rw [copies_of_givesUp hreach hgivesUp] at hle
  exact Nat.le_zero.mp hle

/-! ### What comes after a guard -/

/-- The guard is on the stack of `g`, somewhere on these frames. -/
def Behind (g : GeneratorId) (held : HeldGuard C) (fs : List (Frame C)) : Prop :=
  ∃ f rest, f :: rest <:+ fs ∧ held ∈ f.guards ∧ OnStack g rest

/-- `x` is one of the guards, and `y` is after it, or on the stack of `g` further below. -/
def Ahead (g : GeneratorId) (x y : HeldGuard C) (guards : List (HeldGuard C))
    (fs : List (Frame C)) : Prop :=
  [x, y].Sublist guards ∨ x ∈ guards ∧ Behind g y fs

theorem Behind.of_suffix {fs' : List (Frame C)} (h : Behind g y fs) (hfs : fs <:+ fs') :
    Behind g y fs' := by
  obtain ⟨f, rest, hrest, hheld, honStack⟩ := h
  exact ⟨f, rest, hrest.trans hfs, hheld, honStack⟩

theorem Ahead.of_suffix {guards : List (HeldGuard C)} {fs' : List (Frame C)}
    (h : Ahead g x y guards fs) (hfs : fs <:+ fs') : Ahead g x y guards fs' :=
  h.imp id fun ⟨hx, hy⟩ => ⟨hx, hy.of_suffix hfs⟩

theorem Ahead.mem {guards : List (HeldGuard C)} (h : Ahead g x y guards fs) : x ∈ guards := by
  rcases h with h | ⟨hx, -⟩
  · exact h.subset (.head _)
  · exact hx

/-- Once the first guard is released, `x` is among the others, or it is the first. -/
theorem Ahead.cases {first : HeldGuard C} {rest : List (HeldGuard C)}
    (h : Ahead g x y (first :: rest) fs) :
    Ahead g x y rest fs ∨ first = x ∧ (y ∈ rest ∨ Behind g y fs) := by
  rcases h with h | ⟨hx, hy⟩
  · rcases List.sublist_cons_iff.mp h with h | ⟨_, heq, h⟩
    · exact .inl (.inl h)
    · cases heq
      exact .inr ⟨rfl, .inl (List.singleton_sublist.mp h)⟩
  · rcases List.mem_cons.mp hx with rfl | hx
    · exact .inr ⟨rfl, .inr hy⟩
    · exact .inl (.inr ⟨hx, hy⟩)

/-- The frames of a fiber are on the stack of `g`, in the same order, when control is inside. -/
theorem exists_ahead {scopes : List (Scope C)} {captures : List (HeldGuard C)}
    {rest : List (Frame C)}
    (h : [x, y].Sublist (guardsOn (scopes.map .scope ++ [.closure captures])))
    (honStack : OnStack g rest) :
    ∃ f fs, f :: fs <:+ stackFiber scopes captures rest ∧ OnStack g fs ∧
      Ahead g x y f.guards fs := by
  induction scopes with
  | nil =>
    refine ⟨.closure captures, rest, List.suffix_refl _, honStack, .inl ?_⟩
    simpa [guardsOn, Frame.guards] using h
  | cons sc scopes ih =>
    rw [guardsOn, List.map_cons, List.cons_append, List.flatMap_cons] at h
    obtain ⟨l, l', heq, hl, hl'⟩ := List.sublist_append_iff.mp h
    obtain _ | ⟨_, _ | ⟨_, _ | _⟩⟩ := l
    · obtain rfl : l' = [x, y] := by simpa using heq.symm
      obtain ⟨f, fs, hfs, hfs', hahead⟩ := ih hl'
      exact ⟨f, fs, hfs.trans (List.suffix_cons _ _), hfs', hahead⟩
    · obtain ⟨rfl, rfl⟩ : x = _ ∧ [y] = l' := by simpa using heq
      obtain ⟨f, hf, hy⟩ := List.mem_flatMap.mp (List.singleton_sublist.mp hl')
      obtain ⟨below, hbelow, hfs⟩ := exists_onStack hf honStack
      exact ⟨.scope sc, _, List.suffix_refl _, honStack.stackFiber,
        .inr ⟨List.singleton_sublist.mp hl, f, below, hbelow, hy, hfs⟩⟩
    · obtain ⟨rfl, rfl, rfl⟩ : x = _ ∧ y = _ ∧ l' = [] := by simpa [eq_comm] using heq
      exact ⟨.scope sc, _, List.suffix_refl _, honStack.stackFiber, .inl hl⟩
    · simp at heq

/-- Where `x` is, which `y` comes after, or what has become of them after these states. -/
inductive Queued (P : Program C) (g : GeneratorId) (x y : HeldGuard C) (m : Machine C)
    (ms : List (Machine C)) : Prop
  | entry (entry : Closure C) : (m.world.generator g).entry = some entry →
      [x, y].Sublist entry.captures → Queued P g x y m ms
  | fiber (fiber : Fiber C) : (m.world.generator g).fiber = some fiber →
      [x, y].Sublist (guardsOn fiber.state.frames) → Queued P g x y m ms
  | stack (f : Frame C) (fs : List (Frame C)) : f :: fs <:+ m.frames → OnStack g fs →
      Ahead g x y f.guards fs → Queued P g x y m ms
  | scope : m.control = .task (.releaseScope (.guard x)) → Behind g y m.frames →
      Queued P g x y m ms
  | release (guards : List (HeldGuard C)) : m.control = .task (.release guards) →
      Ahead g x y guards m.frames → Queued P g x y m ms
  /-- Guards before it are being released. -/
  | waiting (name : String) (todo : List (Step C)) (rest : List (HeldGuard C))
      (fs : List (Frame C)) : .onRelease name todo rest :: fs <:+ m.frames →
      Ahead g x y rest fs → Queued P g x y m ms
  /-- Its own release logic is running. -/
  | releasing (m₀ : Machine C) (name : String) (todo : List (Step C))
      (rest : List (HeldGuard C)) : m₀ ∈ ms → m₀.control = .task (.release (x :: rest)) →
      Within P m₀.frames m₀ m → .onRelease name todo rest :: m₀.frames <:+ m.frames →
      y ∈ rest ∨ Behind g y m₀.frames → Queued P g x y m ms
  | disposed : Disposed P x (m :: ms) → Queued P g x y m ms
  | givenUp (m₀ : Machine C) : m₀ ∈ ms → GivesUp g y m₀ → Queued P g x y m ms

variable {w : World C} {name : String} {todo : List (Step C)} {rest : List (HeldGuard C)}

theorem queued_of_release {guards : List (HeldGuard C)}
    (hcontrol : m.control = .task (.release guards)) (hahead : Ahead g x y guards m.frames) :
    Queued P g x y (m.next P) (m :: ms) := by
  obtain ⟨w, control, fs⟩ := m
  obtain rfl : control = _ := hcontrol
  obtain _ | ⟨first, rest⟩ := guards
  · cases hahead.mem
  have hnext : next P ⟨w, .task (.release (first :: rest)), fs⟩ =
      releaseStep (w.note (.released first.serial first.guard.name)) fs first.guard.name
        first.guard.onDrop rest := rfl
  have hwithin : Within P fs ⟨w, .task (.release (first :: rest)), fs⟩ (next P _) :=
    .move (List.suffix_refl fs) nofun (.refl _)
  rcases releaseStep_cases (w.note (.released first.serial first.guard.name)) fs first.guard.name
    first.guard.onDrop rest with heq | ⟨s, todo, heq⟩
  · rw [heq] at hnext
    rcases hahead.cases with hahead | ⟨rfl, -⟩
    · rw [hnext]
      exact .release rest rfl hahead
    · exact .disposed ⟨_, .tail _ (.head _), _, .head _, rest, rfl, by rw [hnext], by rw [hnext],
        hwithin⟩
  · rw [heq] at hnext
    have hsuffix : .onRelease first.guard.name todo rest :: fs <:+ (next P
        ⟨w, .task (.release (first :: rest)), fs⟩).frames := hnext ▸ List.suffix_refl _
    rcases hahead.cases with hahead | ⟨rfl, hy⟩
    · exact .waiting _ todo rest fs hsuffix hahead
    · exact .releasing _ _ todo rest (.head _) rfl hwithin hsuffix hy

theorem queued_of_waiting (h : Sound δ m) (hfs : .onRelease name todo rest :: fs <:+ m.frames)
    (hahead : Ahead g x y rest fs) : Queued P g x y (m.next P) (m :: ms) := by
  rcases onRelease_next (P := P) h hfs with ⟨todo', hstays⟩ | ⟨hcontrol, hframes⟩
  · exact .waiting name todo' rest fs hstays hahead
  · exact .release rest hcontrol (hframes ▸ hahead)

theorem queued_of_releasing {m₀ : Machine C} (h : Sound δ m) (hm₀ : m₀ ∈ m :: ms)
    (hcontrol : m₀.control = .task (.release (x :: rest))) (hwithin : Within P m₀.frames m₀ m)
    (hfs : .onRelease name todo rest :: m₀.frames <:+ m.frames)
    (hy : y ∈ rest ∨ Behind g y m₀.frames) : Queued P g x y (m.next P) (m :: ms) := by
  have hto := hwithin.trans (.next_of_cons hfs)
  rcases onRelease_next (P := P) h hfs with ⟨todo', hstays⟩ | ⟨hnext, hframes⟩
  · exact .releasing m₀ name todo' rest hm₀ hcontrol hto hstays hy
  · exact .disposed ⟨m₀, .tail _ hm₀, m.next P, .head _, rest, hcontrol, hnext, hframes, hto⟩

/-- What is behind a frame of the fiber of `g` is on a frame of the fiber. -/
theorem mem_of_behind {below outer : List (Frame C)} (h : Behind g y (below ++ .driving g :: outer))
    (hout : g ∉ chain outer) : y ∈ guardsOn below := by
  obtain ⟨f, rest, hrest, hy, honStack⟩ := h
  induction below with
  | nil =>
    rcases List.suffix_cons_iff.mp hrest with heq | hrest
    · cases heq
      cases hy
    · refine absurd ?_ hout
      exact chain_subset_of_suffix ((List.suffix_cons f rest).trans hrest) honStack.mem_chain
  | cons f' below ih =>
    rw [guardsOn, List.flatMap_cons]
    rcases List.suffix_cons_iff.mp hrest with heq | hrest
    · cases heq
      exact List.mem_append_left _ hy
    · exact List.mem_append_right _ (ih hrest)

theorem queued_of_stack (h : Sound δ m) (hfs : f :: fs <:+ m.frames) (honStack : OnStack g fs)
    (hahead : Ahead g x y f.guards fs) : Queued P g x y (m.next P) (m :: ms) := by
  cases stackNext_of_guards (P := P) h hfs hahead.mem honStack with
  | stays hstays => exact .stack f fs hstays honStack hahead
  | parts fiber below outer hfiber hbelow hfs hout =>
    subst hfs
    refine .fiber fiber hfiber ?_
    have hfirst : [x, y].Sublist (guardsOn (f :: below)) := by
      rcases hahead with hboth | ⟨hx, hy⟩
      · exact hboth.trans (List.sublist_append_left _ _)
      · exact List.Sublist.append (List.singleton_sublist.mpr hx)
          (List.singleton_sublist.mpr (mem_of_behind hy hout))
    obtain ⟨above, habove⟩ := hbelow
    rw [← habove, guardsOn, List.flatMap_append]
    exact hfirst.trans (List.sublist_append_right _ _)
  | released w top t ht hnext =>
    have hahead := hahead.of_suffix (List.suffix_cons top fs)
    rw [hnext]
    cases f with
    | scope sc =>
      cases ht
      cases sc with
      | guard first =>
        rcases hahead.cases with hahead | ⟨rfl, hy⟩
        · cases hahead.mem
        · exact .scope rfl (hy.resolve_left nofun)
      | _ => cases hahead.mem
    | closure captures =>
      cases ht
      exact .release captures rfl hahead
    | _ => cases hahead.mem

theorem queued_of_fiber {fiber : Fiber C} (h : Sound δ m)
    (hfiber : (m.world.generator g).fiber = some fiber)
    (hboth : [x, y].Sublist (guardsOn fiber.state.frames)) :
    Queued P g x y (m.next P) (m :: ms) := by
  obtain ⟨f, hf, hy⟩ := List.mem_flatMap.mp (hboth.subset (.tail _ (.head _)))
  cases fiberNext_of_fiber (P := P) h hfiber (List.ne_nil_of_mem hf) with
  | stays hstays => exact .fiber fiber hstays hboth
  | stacked scopes captures rest hframes hnext honStack =>
    rw [hframes] at hboth
    obtain ⟨f, fs, hfs, honStack, hahead⟩ := exists_ahead hboth honStack
    exact .stack f fs (hnext ▸ hfs) honStack hahead
  | givenUp hcontrol hpanicking _ =>
    exact .givenUp m (.head _) ⟨hcontrol, hpanicking, fiber, f, hfiber, hf, hy⟩

theorem queued_next (h : Sound δ m) (hqueued : Queued P g x y m ms) :
    Queued P g x y (m.next P) (m :: ms) := by
  cases hqueued with
  | entry entry hentry hboth =>
    cases entryNext_of_entry (P := P) h hentry with
    | stays hstays => exact .entry entry hstays hboth
    | started size hfiber =>
      refine .fiber _ hfiber ?_
      simpa [guardsOn, FiberState.frames, Frame.guards] using hboth
    | released hcontrol _ => exact .release _ hcontrol (.inl hboth)
  | fiber fiber hfiber hboth => exact queued_of_fiber h hfiber hboth
  | stack f fs hfs honStack hahead => exact queued_of_stack h hfs honStack hahead
  | scope hcontrol hy =>
    obtain ⟨w, control, fs⟩ := m
    obtain rfl : control = _ := hcontrol
    exact .release [x] rfl (.inr ⟨.head _, hy⟩)
  | release guards hcontrol hahead => exact queued_of_release hcontrol hahead
  | waiting name todo rest fs hfs hahead => exact queued_of_waiting h hfs hahead
  | releasing m₀ name todo rest hm₀ hcontrol hwithin hfs hy =>
    exact queued_of_releasing h (.tail _ hm₀) hcontrol hwithin hfs hy
  | disposed hdisposed => exact .disposed (hdisposed.cons _)
  | givenUp m₀ hm₀ hgivesUp => exact .givenUp m₀ (.tail _ hm₀) hgivesUp

theorem queued_again (hm : m.Completed) (st : Step C) (hqueued : Queued P g x y m ms) :
    Queued P g x y ⟨m.world, .task (.step st), []⟩ (m :: ms) := by
  cases hqueued with
  | entry entry hentry hboth => exact .entry entry hentry hboth
  | fiber fiber hfiber hboth => exact .fiber fiber hfiber hboth
  | stack f fs hfs => exact absurd hfs hm.not_suffix
  | scope hcontrol => exact absurd hcontrol hm.control_ne
  | release guards hcontrol => exact absurd hcontrol hm.control_ne
  | waiting name todo rest fs hfs => exact absurd hfs hm.not_suffix
  | releasing m₀ name todo rest hm₀ hcontrol hwithin hfs => exact absurd hfs hm.not_suffix
  | disposed hdisposed => exact .disposed (hdisposed.cons _)
  | givenUp m₀ hm₀ hgivesUp => exact .givenUp m₀ (.tail _ hm₀) hgivesUp

/-- Among the guards of `g`, which it holds in front of each other in the order of their release,
`y` comes after `x`. -/
inductive Precedes (g : GeneratorId) (x y : HeldGuard C) (m : Machine C) : Prop
  | entry (entry : Closure C) : (m.world.generator g).entry = some entry →
      [x, y].Sublist entry.captures → Precedes g x y m
  | fiber (fiber : Fiber C) : (m.world.generator g).fiber = some fiber →
      [x, y].Sublist (guardsOn fiber.state.frames) → Precedes g x y m
  /-- Control is inside, or the stack is being unwound. -/
  | stack (scopes : List (Scope C)) (captures : List (HeldGuard C)) (f : Frame C)
      (fs : List (Frame C)) : stackFiber scopes captures (f :: fs) <:+ m.frames →
      f.entered? = some g → [x, y].Sublist (guardsOn (scopes.map .scope ++ [.closure captures])) →
      Precedes g x y m

theorem Precedes.queued (h : Precedes g x y m) : Queued P g x y m ms := by
  cases h with
  | entry entry hentry hboth => exact .entry entry hentry hboth
  | fiber fiber hfiber hboth => exact .fiber fiber hfiber hboth
  | stack scopes captures f fs hfs hf hboth =>
    obtain ⟨f, below, hbelow, honStack, hahead⟩ := exists_ahead hboth (.switch hf)
    exact .stack f below (hbelow.trans hfs) honStack hahead

theorem queued_of_run (h : Run P (m :: ms)) (hbefore : ∃ m₀ ∈ ms, Precedes g x y m₀) :
    Queued P g x y m ms := by
  refine Run.invariant (I := fun m ms => (∃ m₀ ∈ ms, Precedes g x y m₀) → Queued P g x y m ms)
    ?_ ?_ ?_ h hbefore
  · rintro _ _ ⟨_, hm₀, _⟩
    cases hm₀
  · rintro m ms hrun ih ⟨m₀, hm₀, hprecedes⟩
    rcases List.mem_cons.mp hm₀ with rfl | hm₀
    · exact queued_next hrun.reachable.sound hprecedes.queued
    · exact queued_next hrun.reachable.sound (ih ⟨m₀, hm₀, hprecedes⟩)
  · rintro m ms s _ hm ih ⟨m₀, hm₀, hprecedes⟩
    rcases List.mem_cons.mp hm₀ with rfl | hm₀
    · exact queued_again hm s hprecedes.queued
    · exact queued_again hm s (ih ⟨m₀, hm₀, hprecedes⟩)

/-- The guards of a generator are released in order. -/
theorem disposed_of_precedes (h : Run P (m :: ms)) (hbefore : ∃ m₀ ∈ ms, Precedes g x y m₀)
    (hcontrol : m.control = .task (.release (y :: rest))) : Disposed P x (m :: ms) := by
  have hm := h.reachable
  have hpos : 0 < m.control.copies y.serial := by
    rw [hcontrol]
    exact copiesOf_pos (.head rest)
  have hnot : ¬ Has y m := not_has hm (Nat.lt_of_lt_of_le hpos (Nat.le_add_left _ _))
  have hbehind {fs : List (Frame C)} (hfs : fs <:+ m.frames) : ¬ Behind g y fs := by
    rintro ⟨f, below, hbelow, hy, -⟩
    exact hnot (.stack f ((hbelow.trans hfs).subset (.head _)) hy)
  -- it is not a second time among the guards that are released now
  have hrest : y ∉ rest := by
    intro hy
    have htwice : 2 ≤ m.control.copies y.serial := by
      rw [hcontrol]
      show 2 ≤ copiesOf y.serial (y :: rest)
      rw [copiesOf_cons]
      exact Nat.add_le_add (copiesOf_pos (.head [])) (copiesOf_pos hy)
    have hle := copies_le_one hm y.serial
    simp only [copies] at hle
    omega
  cases queued_of_run h hbefore with
  | entry entry hentry hboth =>
    exact absurd (.entry g entry hentry (hboth.subset (.tail _ (.head _)))) hnot
  | fiber fiber hfiber hboth =>
    obtain ⟨f, hf, hy⟩ := List.mem_flatMap.mp (hboth.subset (.tail _ (.head _)))
    exact absurd (.fiber g fiber f hfiber hf hy) hnot
  | stack f fs hfs _ hahead =>
    rcases hahead with hboth | ⟨-, hy⟩
    · exact absurd (.stack f (hfs.subset (.head _)) (hboth.subset (.tail _ (.head _)))) hnot
    · exact absurd hy (hbehind ((List.suffix_cons f fs).trans hfs))
  | scope hscope => cases hcontrol.symm.trans hscope
  | release guards hrelease hahead =>
    cases hcontrol.symm.trans hrelease
    rcases hahead.cases with (hboth | ⟨-, hy⟩) | ⟨-, hy | hy⟩
    · exact absurd (hboth.subset (.tail _ (.head _))) hrest
    · exact absurd hy (hbehind (List.suffix_refl _))
    · exact absurd hy hrest
    · exact absurd hy (hbehind (List.suffix_refl _))
  | waiting name todo rest' fs hfs hahead =>
    rcases hahead with hboth | ⟨-, hy⟩
    · refine absurd (.waiting name todo rest' (hfs.subset (.head _)) ?_) hnot
      exact hboth.subset (.tail _ (.head _))
    · exact absurd hy (hbehind ((List.suffix_cons _ fs).trans hfs))
  | releasing m₀ name todo rest' _ _ _ hfs hy =>
    rcases hy with hy | hy
    · exact absurd (.waiting name todo rest' (hfs.subset (.head _)) hy) hnot
    · exact absurd hy (hbehind ((List.suffix_cons _ _).trans hfs))
  | disposed hdisposed => exact hdisposed
  | givenUp m₀ hm₀ hgivesUp =>
    have hnone := copies_of_run h hm₀ hgivesUp
    simp only [copies] at hnone
    omega

end Machine

end Coroutine
