import Coroutine.Proofs.Guards

/-! Where the guards are that a generator has come to own: with its entry procedure, on its stack, or
among those that are being released. Main statement: over every run a guard is in one of these
places, or its release is over, or it is lost with a stack that was given up. -/

namespace Coroutine

variable {C : Type}

/-- The task that releases the frame when it is left. -/
def Frame.release? : Frame C → Option (Task C)
  | scope s => some (.releaseScope s)
  | closure captures => some (.release captures)
  | _ => none

/-- The frames of a fiber that control is not inside of. -/
def FiberState.frames : FiberState C → List (Frame C)
  | .fresh entry => [.closure entry.captures]
  | .suspended _ scopes captures => scopes.map .scope ++ [.closure captures]
  | _ => []

/-- The frames below a frame that is on the stack of `g`. -/
inductive OnStack (g : GeneratorId) : List (Frame C) → Prop
  | switch {f : Frame C} {fs : List (Frame C)} : f.entered? = some g → OnStack g (f :: fs)
  | part {f : Frame C} {fs : List (Frame C)} : f.IsPart → OnStack g fs → OnStack g (f :: fs)

section OnStack

variable {g : GeneratorId} {f top : Frame C} {fs rest : List (Frame C)}
  {scopes : List (Scope C)} {captures : List (HeldGuard C)} {held : HeldGuard C}

theorem OnStack.mem_chain (h : OnStack g fs) : g ∈ chain fs := by
  induction h with
  | switch hf => simp [-Frame.entered?, hf]
  | part _ _ ih =>
    rw [chain_cons]
    exact List.mem_append_right _ ih

theorem OnStack.entered (h : OnStack g (f :: fs)) (hf : ¬ f.IsPart) : f.entered? = some g := by
  cases h with
  | switch h => exact h
  | part hpart => exact absurd hpart hf

theorem OnStack.stackFiber (h : OnStack g fs) : OnStack g (stackFiber scopes captures fs) := by
  induction scopes with
  | nil => exact .part trivial h
  | cons s scopes ih => exact .part trivial ih

theorem isPart_of_guards (h : held ∈ f.guards) : f.IsPart := by
  cases f with
  | scope | closure => trivial
  | _ => cases h

theorem ne_iterator_of_guards (h : held ∈ f.guards) (source : Option GeneratorId) :
    f ≠ .scope (.iterator source) := by
  rintro rfl
  cases h

/-- The frames of a fiber are on its stack when control is inside. -/
theorem exists_onStack (hf : f ∈ scopes.map .scope ++ [.closure captures]) (h : OnStack g rest) :
    ∃ fs, f :: fs <:+ Coroutine.stackFiber scopes captures rest ∧ OnStack g fs := by
  induction scopes with
  | nil =>
    obtain rfl : f = .closure captures := by simpa using hf
    exact ⟨rest, List.suffix_refl _, h⟩
  | cons s scopes ih =>
    rcases List.mem_cons.mp hf with rfl | hf
    · exact ⟨_, List.suffix_refl _, h.stackFiber⟩
    · obtain ⟨fs, hfs, honStack⟩ := ih hf
      exact ⟨fs, hfs.trans (List.suffix_cons _ _), honStack⟩

theorem isPart_of_mem (h : f ∈ scopes.map .scope ++ [.closure captures]) : f.IsPart := by
  rcases List.mem_append.mp h with h | h
  · obtain ⟨s, -, rfl⟩ := List.mem_map.mp h
    trivial
  · obtain rfl := List.mem_singleton.mp h
    trivial

theorem OnStack.of_append {below : List (Frame C)} (h : OnStack g (below ++ fs))
    (hbelow : ∀ f ∈ below, f.IsPart) : OnStack g fs := by
  induction below with
  | nil => exact h
  | cons f below ih =>
    cases h with
    | switch hf =>
      have hpart := hbelow f (.head _)
      cases f with
      | scope | closure => cases hf
      | _ => exact hpart.elim
    | part _ h => exact ih h fun f hf => hbelow f (.tail _ hf)

/-- A frame of a fiber that control is inside of goes with the fiber, or is further below. -/
theorem part_or_suffix_of_stackFiber
    (h : f :: fs <:+ Coroutine.stackFiber scopes captures (top :: rest)) (hf : f.IsPart)
    (htop : ¬ top.IsPart) :
    (∃ below, f :: below <:+ scopes.map .scope ++ [.closure captures] ∧
      fs = below ++ top :: rest) ∨ f :: fs <:+ rest := by
  induction scopes with
  | nil =>
    rcases List.suffix_cons_iff.mp h with heq | h
    · cases heq
      exact .inl ⟨[], List.suffix_refl _, rfl⟩
    rcases List.suffix_cons_iff.mp h with heq | h
    · cases heq
      exact absurd hf htop
    · exact .inr h
  | cons s scopes ih =>
    rcases List.suffix_cons_iff.mp h with heq | h
    · cases heq
      refine .inl ⟨scopes.map .scope ++ [.closure captures], List.suffix_refl _, ?_⟩
      simp
    · refine (ih h).imp ?_ id
      rintro ⟨below, hbelow, hfs⟩
      exact ⟨below, hbelow.trans (List.suffix_cons _ _), hfs⟩

end OnStack

namespace Machine

variable {P : Program C} {δ : GeneratorId → Prop} {g : GeneratorId} {captured : Prop}
  {held : HeldGuard C} {m : Machine C} {ms : List (Machine C)}

/-- The next move starts `g`, and there is no memory for its stack. -/
structure Starves (g : GeneratorId) (m : Machine C) : Prop where
  control : m.control = .task (.start g)
  memory : m.world.stackMemory < (m.world.generator g).stackSize

/-- The frames are in use for something that `g` owns: control is inside of its stack or, if it may
have been captured, its entry procedure is being released, at the end of `g` or by a start that
fails. -/
inductive Covers (P : Program C) (g : GeneratorId) (captured : Prop) (m : Machine C)
    (ms : List (Machine C)) (fs : List (Frame C)) : Prop
  | inside : g ∈ chain fs → Covers P g captured m ms fs
  | emptying : captured → .emptied g ∈ Coroutine.marks fs → Covers P g captured m ms fs
  | starving (m₀ : Machine C) : captured → m₀ ∈ ms → Starves g m₀ → m₀.frames <:+ fs →
      Within P m₀.frames m₀ m → Covers P g captured m ms fs

/-- The release of a guard has come back: the guards after it were to be released next. -/
def Disposed (P : Program C) (held : HeldGuard C) (ms : List (Machine C)) : Prop :=
  ∃ m₀ ∈ ms, ∃ m₁ ∈ ms, ∃ rest, m₀.control = .task (.release (held :: rest)) ∧
    m₁.control = .task (.release rest) ∧ m₁.frames = m₀.frames ∧ Within P m₀.frames m₀ m₁

/-- Where a guard is that `g` owns, or what has become of it, after these states. Only what was
captured can be with the entry procedure. -/
inductive Custody (P : Program C) (g : GeneratorId) (captured : Prop) (held : HeldGuard C)
    (m : Machine C) (ms : List (Machine C)) : Prop
  | entry (entry : Closure C) : captured → (m.world.generator g).entry = some entry →
      held ∈ entry.captures → Custody P g captured held m ms
  | fiber (fiber : Fiber C) (f : Frame C) : (m.world.generator g).fiber = some fiber →
      f ∈ fiber.state.frames → held ∈ f.guards → Custody P g captured held m ms
  | stack (f : Frame C) (fs : List (Frame C)) : f :: fs <:+ m.frames → held ∈ f.guards →
      OnStack g fs → Custody P g captured held m ms
  | scope : m.control = .task (.releaseScope (.guard held)) →
      Covers P g captured m ms m.frames → Custody P g captured held m ms
  | release (guards : List (HeldGuard C)) : m.control = .task (.release guards) →
      held ∈ guards → Covers P g captured m ms m.frames → Custody P g captured held m ms
  /-- Guards before it are being released. -/
  | waiting (name : String) (todo : List (Step C)) (rest : List (HeldGuard C))
      (fs : List (Frame C)) : .onRelease name todo rest :: fs <:+ m.frames → held ∈ rest →
      Covers P g captured m ms fs → Custody P g captured held m ms
  /-- Its own release logic is running. -/
  | releasing (m₀ : Machine C) (name : String) (todo : List (Step C))
      (rest : List (HeldGuard C)) : m₀ ∈ ms → m₀.control = .task (.release (held :: rest)) →
      Within P m₀.frames m₀ m → .onRelease name todo rest :: m₀.frames <:+ m.frames →
      Covers P g captured m ms m₀.frames → Custody P g captured held m ms
  | disposed : Disposed P held (m :: ms) → Custody P g captured held m ms
  | lost : (m.world.generator g).status = .finished → (m.world.generator g).fiber = none →
      (m.world.generator g).running = false → (m.world.generator g).payloadHeld = true →
      Custody P g captured held m ms

theorem Disposed.cons (h : Disposed P held ms) (m : Machine C) : Disposed P held (m :: ms) := by
  obtain ⟨m₀, hm₀, m₁, hm₁, h⟩ := h
  exact ⟨m₀, .tail _ hm₀, m₁, .tail _ hm₁, h⟩

variable {w : World C} {fs : List (Frame C)} {name : String} {todo : List (Step C)}
  {rest : List (HeldGuard C)}

theorem Covers.of_suffix {fs' : List (Frame C)} (h : Covers P g captured m ms fs)
    (hfs : fs <:+ fs') : Covers P g captured m ms fs' := by
  cases h with
  | inside h => exact .inside (chain_subset_of_suffix hfs h)
  | emptying hcaptured h => exact .emptying hcaptured (marks_subset_of_suffix hfs h)
  | starving m₀ hcaptured hm₀ hstarves hbelow hwithin =>
    exact .starving m₀ hcaptured hm₀ hstarves (hbelow.trans hfs) hwithin

/-- What was begun on top of the frames has not come back. -/
theorem Covers.next (h : Covers P g captured m ms fs) (hfs : fs <:+ m.frames)
    (hback : ∀ a, m.control = .answer a → m.frames ≠ fs) :
    Covers P g captured (m.next P) (m :: ms) fs := by
  cases h with
  | inside h => exact .inside h
  | emptying hcaptured h => exact .emptying hcaptured h
  | starving m₀ hcaptured hm₀ hstarves hbelow hwithin =>
    have hto : Within P m₀.frames m (m.next P) := by
      refine .move (hbelow.trans hfs) (fun a ha heq => hback a ha ?_) (.refl _)
      exact (hfs.eq_of_length_le (heq ▸ hbelow.length_le)).symm
    exact .starving m₀ hcaptured (.tail _ hm₀) hstarves hbelow (hwithin.trans hto)

/-- Nor has it while there is a frame on top of them. -/
theorem Covers.next_of_cons {f : Frame C} (h : Covers P g captured m ms fs)
    (hfs : f :: fs <:+ m.frames) : Covers P g captured (m.next P) (m :: ms) fs := by
  refine h.next ((List.suffix_cons f fs).trans hfs) fun a _ heq => ?_
  rw [heq] at hfs
  exact absurd hfs.length_le (Nat.not_succ_le_self _)

theorem releaseStep_cases (w : World C) (fs : List (Frame C)) (name : String)
    (todo : List (Step C)) (rest : List (HeldGuard C)) :
    releaseStep w fs name todo rest = ⟨w, .task (.release rest), fs⟩ ∨
    ∃ s todo', releaseStep w fs name todo rest =
      ⟨w, .task (.step s), .onRelease name todo' rest :: fs⟩ := by
  cases todo with
  | nil => exact .inl rfl
  | cons s todo => exact .inr ⟨s, todo, rfl⟩

/-- Release logic goes on, or the guards after it are released. -/
theorem onRelease_next (h : Sound δ m) (hfs : .onRelease name todo rest :: fs <:+ m.frames) :
    (∃ todo', .onRelease name todo' rest :: fs <:+ (m.next P).frames) ∨
      (m.next P).control = .task (.release rest) ∧ (m.next P).frames = fs := by
  rcases stays_next (P := P) id hfs with hback | hstays
  · obtain ⟨-, w, e, hnext⟩ := releaseStep_of_back h hback
    rw [hnext]
    rcases releaseStep_cases (w.note e) fs name todo rest with heq | ⟨s, todo', heq⟩
    · rw [heq]
      exact .inr ⟨rfl, rfl⟩
    · rw [heq]
      exact .inl ⟨todo', List.suffix_refl _⟩
  · exact .inl ⟨todo, hstays⟩

/-! ### Guards that are being released -/

/-- A guard is being released, with others, on top of the frames `fs`, or its release is over. -/
inductive Releasing (P : Program C) (held : HeldGuard C) (fs : List (Frame C)) (m : Machine C)
    (ms : List (Machine C)) : Prop
  | release (guards : List (HeldGuard C)) : m.control = .task (.release guards) → m.frames = fs →
      held ∈ guards → Releasing P held fs m ms
  | waiting (name : String) (todo : List (Step C)) (rest : List (HeldGuard C)) :
      .onRelease name todo rest :: fs <:+ m.frames → held ∈ rest → Releasing P held fs m ms
  | releasing (m₀ : Machine C) (name : String) (todo : List (Step C))
      (rest : List (HeldGuard C)) : m₀ ∈ ms → m₀.control = .task (.release (held :: rest)) →
      m₀.frames = fs → Within P fs m₀ m → .onRelease name todo rest :: fs <:+ m.frames →
      Releasing P held fs m ms
  | disposed : Disposed P held (m :: ms) → Releasing P held fs m ms

theorem releasing_of_release {guards : List (HeldGuard C)}
    (hcontrol : m.control = .task (.release guards)) (hheld : held ∈ guards) :
    Releasing P held m.frames (m.next P) (m :: ms) := by
  obtain ⟨w, control, fs⟩ := m
  obtain rfl : control = _ := hcontrol
  obtain _ | ⟨first, rest⟩ := guards
  · cases hheld
  have hnext : next P ⟨w, .task (.release (first :: rest)), fs⟩ =
      releaseStep (w.note (.released first.serial first.guard.name)) fs first.guard.name
        first.guard.onDrop rest := rfl
  have hwithin : Within P fs ⟨w, .task (.release (first :: rest)), fs⟩ (next P _) :=
    .move (List.suffix_refl fs) nofun (.refl _)
  rcases releaseStep_cases (w.note (.released first.serial first.guard.name)) fs first.guard.name
    first.guard.onDrop rest with heq | ⟨s, todo, heq⟩
  · rw [heq] at hnext
    rcases List.mem_cons.mp hheld with rfl | hheld
    · refine .disposed ⟨_, .tail _ (.head _), _, .head _, rest, rfl, ?_, ?_, hwithin⟩
      · rw [hnext]
      · rw [hnext]
    · rw [hnext]
      exact .release rest rfl rfl hheld
  · rw [heq] at hnext
    rcases List.mem_cons.mp hheld with rfl | hheld
    · exact .releasing _ held.guard.name todo rest (.head _) rfl rfl hwithin
        (hnext ▸ List.suffix_refl _)
    · exact .waiting first.guard.name todo rest (hnext ▸ List.suffix_refl _) hheld

/-- Release goes on guard by guard. -/
theorem releasing_next (h : Sound δ m) (hheld : Releasing P held fs m ms) :
    Releasing P held fs (m.next P) (m :: ms) := by
  cases hheld with
  | release guards hcontrol hframes hheld =>
    subst hframes
    exact releasing_of_release hcontrol hheld
  | waiting name todo rest hfs hheld =>
    rcases onRelease_next (P := P) h hfs with ⟨todo', hstays⟩ | ⟨hcontrol, hframes⟩
    · exact .waiting name todo' rest hstays hheld
    · exact .release rest hcontrol hframes hheld
  | releasing m₀ name todo rest hm₀ hcontrol hframes hwithin hfs =>
    have hto := hwithin.trans (.next_of_cons hfs)
    rcases onRelease_next (P := P) h hfs with ⟨todo', hstays⟩ | ⟨hnext, hback⟩
    · exact .releasing m₀ name todo' rest (.tail _ hm₀) hcontrol hframes hto hstays
    · subst hframes
      exact .disposed ⟨m₀, .tail _ (.tail _ hm₀), m.next P, .head _, rest, hcontrol, hnext, hback, hto⟩
  | disposed hdisposed => exact .disposed (hdisposed.cons _)

theorem Releasing.custody (hheld : Releasing P held fs m ms) (hcovers : Covers P g captured m ms fs) :
    Custody P g captured held m ms := by
  cases hheld with
  | release guards hcontrol hframes hheld => exact .release guards hcontrol hheld (hframes ▸ hcovers)
  | waiting name todo rest hfs hheld => exact .waiting name todo rest fs hfs hheld hcovers
  | releasing m₀ name todo rest hm₀ hcontrol hframes hwithin hfs =>
    subst hframes
    exact .releasing m₀ name todo rest hm₀ hcontrol hwithin hfs hcovers
  | disposed hdisposed => exact .disposed hdisposed

/-! ### Guards on the stack -/

/-- What can become of the frame `f` on the stack of `g`, on top of `fs`, with the next move. -/
inductive StackNext (P : Program C) (g : GeneratorId) (f : Frame C) (fs : List (Frame C))
    (m : Machine C) : Prop
  | stays : f :: fs <:+ (m.next P).frames → StackNext P g f fs m
  /-- The producer yields and takes it along. -/
  | parts (fiber : Fiber C) (below outer : List (Frame C)) :
      ((m.next P).world.generator g).fiber = some fiber → f :: below <:+ fiber.state.frames →
      fs = below ++ .driving g :: outer → g ∉ chain outer → StackNext P g f fs m
  | released (w : World C) (top : Frame C) (t : Task C) : f.release? = some t →
      m.next P = task w (top :: fs) t → StackNext P g f fs m

/-- Code that yields takes the frames of its fiber along. -/
theorem stackNext_of_yield {f : Frame C} {c : C} {v : Value}
    {k : Except Exception (Option Value) → C} {frames : List (Frame C)}
    (h : Sound δ ⟨w, .code c, frames⟩) (hP : P.next c = .yield v k) (hfs : f :: fs <:+ frames)
    (hpart : f.IsPart) (honStack : OnStack g fs) : StackNext P g f fs ⟨w, .code c, frames⟩ := by
  have hnext : next P ⟨w, .code c, frames⟩ = yield w frames v k := by simp only [next, hP, grant]
  obtain ⟨κ, hκ, rfl⟩ := h.order
  obtain ⟨scopes, captures, outer, rfl, houter⟩ := hκ.code_cases
  rcases houter.outcome_cases with ⟨i, κ, outer, rfl, -, -, hout⟩ | ⟨name, size, outer, rfl, -⟩
  · have hrest : Rest (Coroutine.marks (stackFiber scopes captures (.driving i :: outer))) i
        (w.generator i) := h.rest rfl
    obtain ⟨hinside, hslots⟩ := hrest.inside (by simp)
    obtain ⟨w₁, size, hyield, hb⟩ := yield_driving outer scopes captures v k hinside.entered hslots
      (w.lt_size_of_started hinside.started)
    rcases part_or_suffix_of_stackFiber hfs hpart id with ⟨below, hbelow, rfl⟩ | hbelow
    · obtain rfl : i = g := by
        have hparts : ∀ f ∈ below, f.IsPart :=
          fun f hf => isPart_of_mem (hbelow.subset (List.mem_cons_of_mem _ hf))
        simpa using (honStack.of_append hparts).entered id
      refine .parts ⟨size, .suspended k scopes captures⟩ below outer ?_ hbelow rfl hout
      rw [hnext, hyield]
      exact congrArg Generator.fiber hb.self
    · refine .stays ?_
      rw [hnext, hyield]
      exact hbelow
  · rcases part_or_suffix_of_stackFiber hfs hpart id with ⟨below, hbelow, rfl⟩ | hbelow
    · have hparts : ∀ f ∈ below, f.IsPart :=
        fun f hf => isPart_of_mem (hbelow.subset (List.mem_cons_of_mem _ hf))
      cases (honStack.of_append hparts).entered id
    · refine .stays ?_
      rw [hnext, yield, splitFiber_eq_some_iff.mpr rfl]
      exact hbelow.trans (suffix_nameFiber ..)

/-- A frame with guards stays on the stack, or it goes with its fiber, or its guards are released. -/
theorem stackNext_of_guards {f : Frame C} (h : Sound δ m) (hfs : f :: fs <:+ m.frames)
    (hheld : held ∈ f.guards) (honStack : OnStack g fs) : StackNext P g f fs m := by
  obtain ⟨w, control, frames⟩ := m
  by_cases hleaves : frames = f :: fs ∧ ((∃ a, control = .answer a) ∨ (∃ u, control = .unwind u) ∨
      ∃ c c', control = .code c ∧ P.next c = .leave c' ∧ ∃ s, f = .scope s)
  · obtain ⟨rfl, ⟨a, rfl⟩ | ⟨u, rfl⟩ | ⟨c, c', rfl, hP, s, rfl⟩⟩ := hleaves
    · cases f with
      | scope | closure => exact .released _ _ _ rfl rfl
      | _ => cases hheld
    · cases f with
      | scope | closure => exact .released _ _ _ rfl rfl
      | _ => cases hheld
    · have hnext : next P ⟨w, .code c, .scope s :: fs⟩ = grant w (.scope s :: fs) (.leave c') :=
        congrArg (grant w (.scope s :: fs)) hP
      exact .released _ _ _ rfl hnext
  by_cases hyield : ∃ c v k, control = .code c ∧ P.next c = .yield v k
  · obtain ⟨c, v, k, rfl, hP⟩ := hyield
    exact stackNext_of_yield h hP hfs (isPart_of_guards hheld) honStack
  refine .stays (suffix_next (ne_iterator_of_guards hheld) hfs ?_ ?_ ?_ ?_)
  · exact fun s c c' hs hcontrol hP hframes =>
      hleaves ⟨hframes, .inr (.inr ⟨c, c', hcontrol, hP, s, hs⟩)⟩
  · exact fun a hcontrol hframes => hleaves ⟨hframes, .inl ⟨a, hcontrol⟩⟩
  · exact fun u hcontrol hframes => hleaves ⟨hframes, .inr (.inl ⟨u, hcontrol⟩)⟩
  · exact fun c v k hcontrol hP => hyield ⟨c, v, k, hcontrol, hP⟩

theorem custody_of_stack {f : Frame C} (h : Sound δ m) (hfs : f :: fs <:+ m.frames)
    (hheld : held ∈ f.guards) (honStack : OnStack g fs) :
    Custody P g captured held (m.next P) (m :: ms) := by
  cases stackNext_of_guards (P := P) h hfs hheld honStack with
  | stays hstays => exact .stack f fs hstays hheld honStack
  | parts fiber below outer hfiber hbelow _ _ =>
    exact .fiber fiber f hfiber (hbelow.subset (.head _)) hheld
  | released w top t ht hnext =>
    have hcovers {m : Machine C} {ms : List (Machine C)} : Covers P g captured m ms (top :: fs) :=
      Covers.of_suffix (.inside honStack.mem_chain) (List.suffix_cons top fs)
    rw [hnext]
    cases f with
    | scope s =>
      cases ht
      cases s with
      | guard first =>
        obtain rfl := List.mem_singleton.mp hheld
        exact .scope rfl hcovers
      | _ => cases hheld
    | closure captures =>
      cases ht
      exact .release captures rfl hheld hcovers
    | _ => cases hheld

/-! ### Guards of a generator that control is not inside of -/

/-- A generator that was finished while frames were unwound, with its stack given up. -/
structure Lost (x : Generator C) : Prop where
  status : x.status = .finished
  fiber : x.fiber = none
  running : x.running = false
  payloadHeld : x.payloadHeld = true

/-- What can become of a fiber of `g` that control is not inside of, with the next move. -/
inductive FiberNext (P : Program C) (g : GeneratorId) (fiber : Fiber C) (m : Machine C) : Prop
  | stays : ((m.next P).world.generator g).fiber = some fiber → FiberNext P g fiber m
  /-- Control is switched into it, or it is to be unwound. -/
  | stacked (scopes : List (Scope C)) (captures : List (HeldGuard C)) (rest : List (Frame C)) :
      fiber.state.frames = scopes.map .scope ++ [.closure captures] →
      (m.next P).frames = stackFiber scopes captures rest → OnStack g rest → FiberNext P g fiber m
  | givenUp : m.control = .task (.finalize g) → panicking m.frames = true →
      Lost ((m.next P).world.generator g) → FiberNext P g fiber m

theorem fiberNext_of_drive {fiber : Fiber C} (h : Sound δ ⟨w, .task (.drive g), fs⟩)
    (hfiber : (w.generator g).fiber = some fiber) (hframes : fiber.state.frames ≠ []) :
    FiberNext P g fiber ⟨w, .task (.drive g), fs⟩ := by
  have hat : At _ (Coroutine.marks fs) g (w.generator g) := h.shape g
  obtain ⟨-, -, hstarted, -⟩ := hat.phase rfl (by decide)
  have hlt := w.lt_size_of_started hstarted
  have hnext : next P ⟨w, .task (.drive g), fs⟩ = drive w fs g := rfl
  obtain ⟨size, state⟩ := fiber
  cases state with
  | fresh entry =>
    obtain ⟨w₁, hdrive, -⟩ := drive_fresh fs hfiber hstarted.payload hlt
    refine .stacked [] entry.captures (.driving g :: fs) rfl ?_ (.switch rfl)
    rw [hnext, hdrive]
  | suspended k scopes captures =>
    obtain ⟨w₁, hdrive, -⟩ := drive_suspended fs hfiber hlt
    refine .stacked scopes captures (.driving g :: fs) rfl ?_ (.switch rfl)
    rw [hnext, hdrive]
    rfl
  | _ => exact absurd rfl hframes

theorem fiberNext_of_finalize {fiber : Fiber C} (h : Sound δ ⟨w, .task (.finalize g), fs⟩)
    (hfiber : (w.generator g).fiber = some fiber) (hframes : fiber.state.frames ≠ []) :
    FiberNext P g fiber ⟨w, .task (.finalize g), fs⟩ := by
  have hat : At _ (Coroutine.marks fs) g (w.generator g) := h.shape g
  obtain ⟨-, -, hs, hrun, hshape⟩ := hat.phase rfl (by decide)
  obtain ⟨hparked, hpayload⟩ : (w.generator g).Parked ∧ (w.generator g).payloadHeld = true := by
    rcases hshape with ⟨hended, -⟩ | ⟨-, -, -, ⟨⟨size, hdead⟩, -⟩ | ⟨hparked, hpayload, -⟩⟩
    · cases hended.fiber.symm.trans hfiber
    · cases hdead.symm.trans hfiber
      exact absurd rfl hframes
    · exact ⟨hparked, hpayload⟩
  have hlt := w.lt_size_of_parked hparked
  have hnext : next P ⟨w, .task (.finalize g), fs⟩ = finalize w fs g := rfl
  by_cases hpanicking : panicking fs = true
  · obtain ⟨w₁, hfinalize, hb⟩ := finalize_panicking hparked hpanicking hlt
    refine .givenUp rfl hpanicking ?_
    rw [hnext, hfinalize]
    exact ⟨(congrArg Generator.status hb.self).trans hs, congrArg Generator.fiber hb.self,
      (congrArg Generator.running hb.self).trans hrun,
      (congrArg Generator.payloadHeld hb.self).trans hpayload⟩
  · obtain ⟨w₁, size, k, scopes, captures, hsuspended, hfinalize, -⟩ :=
      finalize_suspended hparked hpanicking hlt
    cases hfiber.symm.trans hsuspended
    refine .stacked scopes captures (.destroying g :: fs) rfl ?_ (.switch rfl)
    rw [hnext, hfinalize]

theorem fiberNext_of_fiber {fiber : Fiber C} (h : Sound δ m)
    (hfiber : (m.world.generator g).fiber = some fiber) (hframes : fiber.state.frames ≠ []) :
    FiberNext P g fiber m := by
  have hg := m.world.lt_size_of_ne Generator.fiber (g := g) (by rw [hfiber]; nofun)
  cases change_next (P := P) h hg with
  | kept _ hx | starved _ _ _ _ hx | finished _ _ hx | emptied _ _ hx | released _ _ hx =>
    exact .stays (hx.fiber.trans hfiber)
  | started _ hcontrol hs =>
    obtain ⟨w, control, fs⟩ := m
    obtain rfl : control = _ := hcontrol
    have hat : At _ (Coroutine.marks fs) g (w.generator g) := h.shape g
    obtain ⟨-, -, hidle, -⟩ := hat.phase rfl (by decide)
    cases (hidle.unused hs).1.symm.trans hfiber
  | entered _ hcontrol =>
    obtain ⟨w, control, fs⟩ := m
    obtain rfl : control = _ := hcontrol
    exact fiberNext_of_drive h hfiber hframes
  | parted _ _ _ _ hinside | left _ _ _ hinside =>
    obtain ⟨size, hentered⟩ := hinside.entered
    cases hentered.symm.trans hfiber
    exact absurd rfl hframes
  | dissolved hcontrol | unstacked hcontrol =>
    obtain ⟨w, control, fs⟩ := m
    obtain rfl : control = _ := hcontrol
    exact fiberNext_of_finalize h hfiber hframes
  | unwound _ _ hunwound => cases hunwound.ended.fiber.symm.trans hfiber

/-- What can become of an entry procedure of `g` that has not run, with the next move. -/
inductive EntryNext (P : Program C) (g : GeneratorId) (entry : Closure C) (m : Machine C) : Prop
  | stays : ((m.next P).world.generator g).entry = some entry → EntryNext P g entry m
  | started (size : Nat) : ((m.next P).world.generator g).fiber = some ⟨size, .fresh entry⟩ →
      EntryNext P g entry m
  /-- It is released, because `g` has ended or because there is no memory. -/
  | released : (m.next P).control = .task (.release entry.captures) →
      .emptied g ∈ Coroutine.marks (m.next P).frames ∨
        Starves g m ∧ m.frames <:+ (m.next P).frames → EntryNext P g entry m

theorem entryNext_of_entry {entry : Closure C} (h : Sound δ m)
    (hentry : (m.world.generator g).entry = some entry) : EntryNext P g entry m := by
  have hg := m.world.lt_size_of_ne Generator.entry (g := g) (by rw [hentry]; nofun)
  cases change_next (P := P) h hg with
  | kept _ hx | entered _ _ _ hx | parted _ _ _ _ _ hx | left _ _ _ _ _ hx | finished _ _ hx
  | dissolved _ _ _ hx | unstacked _ _ _ hx | unwound _ _ _ hx | released _ _ hx =>
    exact .stays (hx.entry.trans hentry)
  | starved hcontrol _ hrange hless =>
    obtain ⟨w, control, fs⟩ := m
    obtain rfl : control = _ := hcontrol
    obtain ⟨w₁, hstart, -⟩ := start_outOfMemory fs hentry hrange hless hg
    have hnext : next P ⟨w, .task (.start g), fs⟩ = task w₁ (.unwinding (.panic .outOfMemory) ::
      .catching (startFailure (w.generator g)) :: fs) (.release entry.captures) := hstart
    refine .released (by rw [hnext]; rfl) (.inr ⟨⟨rfl, hless⟩, ?_⟩)
    rw [hnext]
    exact (List.suffix_cons _ _).trans (List.suffix_cons _ _)
  | started entry' _ _ hentry' hx =>
    cases hentry.symm.trans hentry'
    exact .started _ hx.fiber
  | emptied hcontrol _ _ =>
    obtain ⟨w, control, fs⟩ := m
    obtain rfl : control = _ := hcontrol
    obtain ⟨w₁, hrelease, -⟩ := releaseEntry_some fs hentry hg
    have hnext : next P ⟨w, .task (.releaseEntry g), fs⟩ =
      ⟨w₁, .task (.release entry.captures), .emptying g :: fs⟩ := hrelease
    exact .released (by rw [hnext]) (.inl (by rw [hnext]; exact .head _))

/-- The guards of a fiber stay with it until control is switched into it. -/
theorem custody_of_fiber {fiber : Fiber C} {f : Frame C} (h : Sound δ m)
    (hfiber : (m.world.generator g).fiber = some fiber) (hf : f ∈ fiber.state.frames)
    (hheld : held ∈ f.guards) : Custody P g captured held (m.next P) (m :: ms) := by
  cases fiberNext_of_fiber (P := P) h hfiber (List.ne_nil_of_mem hf) with
  | stays hstays => exact .fiber fiber f hstays hf hheld
  | stacked scopes captures rest hframes hnext honStack =>
    rw [hframes] at hf
    obtain ⟨below, hbelow, honStack⟩ := exists_onStack hf honStack
    exact .stack f below (hnext ▸ hbelow) hheld honStack
  | givenUp _ _ hlost => exact .lost hlost.status hlost.fiber hlost.running hlost.payloadHeld

/-- The guards of an entry procedure that has not run stay with it until it is released. -/
theorem custody_of_entry {entry : Closure C} (h : Sound δ m) (hcaptured : captured)
    (hentry : (m.world.generator g).entry = some entry) (hheld : held ∈ entry.captures) :
    Custody P g captured held (m.next P) (m :: ms) := by
  cases entryNext_of_entry (P := P) h hentry with
  | stays hstays => exact .entry entry hcaptured hstays hheld
  | started size hfiber => exact .fiber _ (.closure entry.captures) hfiber (.head _) hheld
  | released hcontrol hcovers =>
    refine .release entry.captures hcontrol hheld ?_
    rcases hcovers with hemptied | ⟨hstarves, hbelow⟩
    · exact .emptying hcaptured hemptied
    · exact .starving m hcaptured (.head _) hstarves hbelow
        (.move (List.suffix_refl _) (fun a ha => by cases hstarves.control.symm.trans ha) (.refl _))

/-- What is lost stays so. -/
theorem lost_next (h : Sound δ m) (hlost : Lost (m.world.generator g)) :
    Lost ((m.next P).world.generator g) := by
  have hg : g < m.world.generators.size :=
    m.world.lt_size_of_ne Generator.payloadHeld (by rw [hlost.payloadHeld]; nofun)
  obtain ⟨hs, hf, hrun, hpayload⟩ := hlost
  cases change_next (P := P) h hg with
  | kept _ hx | emptied _ _ hx | released _ _ hx =>
    exact ⟨hx.status.trans hs, hx.fiber.trans hf, hx.running.trans hrun,
      hx.payloadHeld.trans hpayload⟩
  | starved _ hunused => cases hunused.symm.trans hs
  | started _ _ hunused => cases hunused.symm.trans hs
  | entered _ _ hrunning => cases hrunning.symm.trans hs
  | parted _ _ _ _ hinside | left _ _ _ hinside => cases hinside.started.status.symm.trans hs
  | finished hopen => exact absurd hs hopen
  | dissolved _ _ hgiven hx =>
    exact ⟨hx.status.trans hs, hx.fiber, hx.running.trans hrun, hx.payloadHeld.trans hpayload⟩
  | unstacked _ _ hparked => exact absurd hparked (Generator.not_parked_of_fiber hf)
  | unwound _ _ hunwound => cases hunwound.running.symm.trans hrun

/-! ### Guards over a run -/

/-- Every move keeps a guard in custody. -/
theorem custody_next (h : Sound δ m) (hheld : Custody P g captured held m ms) :
    Custody P g captured held (m.next P) (m :: ms) := by
  cases hheld with
  | entry entry hcaptured hentry hheld => exact custody_of_entry h hcaptured hentry hheld
  | fiber fiber f hfiber hf hheld => exact custody_of_fiber h hfiber hf hheld
  | stack f fs hfs hheld honStack => exact custody_of_stack h hfs hheld honStack
  | scope hcontrol hcovers =>
    obtain ⟨w, control, fs⟩ := m
    obtain rfl : control = _ := hcontrol
    exact .release [held] rfl (.head _) (hcovers.next (List.suffix_refl _) nofun)
  | release guards hcontrol hheld hcovers =>
    refine (releasing_of_release hcontrol hheld).custody (hcovers.next (List.suffix_refl _) ?_)
    exact fun a ha => by cases hcontrol.symm.trans ha
  | waiting name todo rest fs hfs hheld hcovers =>
    have hreleasing : Releasing P held fs m ms := .waiting name todo rest hfs hheld
    exact (releasing_next h hreleasing).custody (hcovers.next_of_cons hfs)
  | releasing m₀ name todo rest hm₀ hcontrol hwithin hfs hcovers =>
    have hreleasing : Releasing P held m₀.frames m ms :=
      .releasing m₀ name todo rest hm₀ hcontrol rfl hwithin hfs
    exact (releasing_next h hreleasing).custody (hcovers.next_of_cons hfs)
  | disposed hdisposed => exact .disposed (hdisposed.cons _)
  | lost hs hf hrun hpayload =>
    have hlost : Lost ((m.next P).world.generator g) := lost_next h ⟨hs, hf, hrun, hpayload⟩
    exact .lost hlost.status hlost.fiber hlost.running hlost.payloadHeld

/-- So does the step from one performance to the next. -/
theorem custody_again (hm : m.Completed) (s : Step C) (hheld : Custody P g captured held m ms) :
    Custody P g captured held ⟨m.world, .task (.step s), []⟩ (m :: ms) := by
  cases hheld with
  | entry entry hcaptured hentry hheld => exact .entry entry hcaptured hentry hheld
  | fiber fiber f hfiber hf hheld => exact .fiber fiber f hfiber hf hheld
  | stack f fs hfs => exact absurd hfs hm.not_suffix
  | scope hcontrol => exact absurd hcontrol hm.control_ne
  | release guards hcontrol => exact absurd hcontrol hm.control_ne
  | waiting name todo rest fs hfs => exact absurd hfs hm.not_suffix
  | releasing m₀ name todo rest hm₀ hcontrol hwithin hfs => exact absurd hfs hm.not_suffix
  | disposed hdisposed => exact .disposed (hdisposed.cons _)
  | lost hs hf hrun hpayload => exact .lost hs hf hrun hpayload

/-- With the next move `g` is made, and its entry procedure has captured the guard. -/
def Captures (P : Program C) (g : GeneratorId) (held : HeldGuard C) (m : Machine C) : Prop :=
  ∃ d, m.makes? P = some d ∧ m.world.generators.size = g ∧
    held ∈ (m.world.holdGuards d.captures).1

/-- With the next move the producer of `g` puts the guard on its stack. -/
def Holds (P : Program C) (g : GeneratorId) (held : HeldGuard C) (m : Machine C) : Prop :=
  ∃ c c' guard, m.control = .code c ∧ P.next c = .hold guard c' ∧ producer? m.frames = some g ∧
    held = ⟨m.world.guards, guard⟩

theorem custody_of_captures (h : Captures P g held m) :
    Custody P g True held (m.next P) (m :: ms) := by
  obtain ⟨d, hmake, rfl, hheld⟩ := h
  refine .entry ⟨d.entry, _⟩ trivial ?_ hheld
  rw [generator_next_of_makes hmake, World.generator_addGenerator_self]
  rfl

theorem custody_of_holds (h : Holds P g held m) :
    Custody P g False held (m.next P) (m :: ms) := by
  obtain ⟨c, c', guard, hcontrol, hP, hproducer, rfl⟩ := h
  obtain ⟨w, control, fs⟩ := m
  obtain rfl : control = _ := hcontrol
  obtain ⟨scopes, captures, rest, rfl⟩ := producer?_eq_some_iff.mp hproducer
  have hdriving : OnStack g (.driving g :: rest) := .switch rfl
  refine .stack (.scope (.guard ⟨w.guards, guard⟩)) (stackFiber scopes captures (.driving g :: rest))
    ?_ (.head _) hdriving.stackFiber
  simp only [next, hP, grant]
  exact List.suffix_refl _

/-- While nothing is in use that `g` owns, a guard is with `g`, its release is over, or it is lost. -/
theorem Custody.of_not_covers (hheld : Custody P g captured held m ms)
    (hfree : ¬ Covers P g captured m ms m.frames) :
    (captured ∧ ∃ entry, (m.world.generator g).entry = some entry ∧ held ∈ entry.captures) ∨
    (∃ fiber f, (m.world.generator g).fiber = some fiber ∧ f ∈ fiber.state.frames ∧
      held ∈ f.guards) ∨
    Disposed P held (m :: ms) ∨ Lost (m.world.generator g) := by
  have hbelow {f : Frame C} {fs : List (Frame C)} (hfs : f :: fs <:+ m.frames) :
      ¬ Covers P g captured m ms fs :=
    fun hcovers => hfree (hcovers.of_suffix ((List.suffix_cons f fs).trans hfs))
  cases hheld with
  | entry entry hcaptured hentry hheld => exact .inl ⟨hcaptured, entry, hentry, hheld⟩
  | fiber fiber f hfiber hf hheld => exact .inr (.inl ⟨fiber, f, hfiber, hf, hheld⟩)
  | stack f fs hfs _ honStack => exact absurd (.inside honStack.mem_chain) (hbelow hfs)
  | scope _ hcovers | release _ _ _ hcovers => exact absurd hcovers hfree
  | waiting name todo rest fs hfs _ hcovers => exact absurd hcovers (hbelow hfs)
  | releasing m₀ name todo rest _ _ _ hfs hcovers => exact absurd hcovers (hbelow hfs)
  | disposed hdisposed => exact .inr (.inr (.inl hdisposed))
  | lost hs hfiber hrun hpayload => exact .inr (.inr (.inr ⟨hs, hfiber, hrun, hpayload⟩))

/-- A guard that `g` came to own in one of the states of a run is in custody ever after. -/
theorem custody_of_run {Comes : Machine C → Prop} (hopen : ∀ m, Comes m → ¬ m.Completed)
    (hcomes : ∀ m ms, Comes m → Custody P g captured held (m.next P) (m :: ms))
    (h : Run P (m :: ms)) (hcame : ∃ m₀ ∈ ms, Comes m₀) : Custody P g captured held m ms := by
  refine Run.invariant (I := fun m ms => (∃ m₀ ∈ ms, Comes m₀) → Custody P g captured held m ms)
    ?_ ?_ ?_ h hcame
  · rintro _ _ ⟨_, hm₀, _⟩
    cases hm₀
  · rintro m ms hrun ih ⟨m₀, hm₀, hm₀comes⟩
    rcases List.mem_cons.mp hm₀ with rfl | hm₀
    · exact hcomes _ _ hm₀comes
    · exact custody_next hrun.reachable.sound (ih ⟨m₀, hm₀, hm₀comes⟩)
  · rintro m ms s _ hm ih ⟨m₀, hm₀, hm₀comes⟩
    rcases List.mem_cons.mp hm₀ with rfl | hm₀
    · exact absurd hm (hopen _ hm₀comes)
    · exact custody_again hm s (ih ⟨m₀, hm₀, hm₀comes⟩)

end Machine

end Coroutine
