import Coroutine.Proofs.Drawing
import Coroutine.Proofs.Pipeline

/-! Producers that hand on what they get: each time they are resumed they pull on the generator that a
scope on their stack owns, and yield the value that they get. Main statement: a pull on such a generator
comes to a pull on the next one; with the value that this comes back with it comes back too, and with no
value if there is none. -/

namespace Coroutine

variable {C : Type}

/-- What code goes on with after a request that touches neither stacks nor handles. -/
def Request.idle? : Request C → Option C
  | silent c | emit _ c | producerName c | append _ c | caught _ _ c => some c
  | _ => none

/-- The stack of the producer of the stage, which was called on top of `fs`. -/
def Stage.stack (s : Stage C) (fs : List (Frame C)) : List (Frame C) :=
  stackFiber s.scopes s.captures (.driving s.generator :: fs)

theorem Stage.suffix_stack (s : Stage C) (fs : List (Frame C)) : fs <:+ s.stack fs :=
  suffix_under_stackFiber ..

namespace World

variable {w w' w'' : World C}

/-- All stacks and all handles stay as they are. -/
structure KeepsAll (w w' : World C) : Prop where
  stack : ∀ g, w.KeepsStack w' g
  handles : ∀ g, w.KeepsHandles w' g

theorem KeepsAll.of_generators (h : w'.generators = w.generators) (hnames : w'.handles = w.handles) :
    w.KeepsAll w' := by
  have hsame (g : GeneratorId) : w'.generator g = w.generator g := by
    rw [generator, generator, h]
  exact ⟨fun g => ⟨by rw [hsame], by rw [hsame]⟩,
    fun g => ⟨by rw [hsame], fun _ hname => hnames ▸ hname⟩⟩

theorem KeepsAll.refl (w : World C) : w.KeepsAll w := .of_generators rfl rfl

theorem KeepsAll.trans (h : w.KeepsAll w') (h' : w'.KeepsAll w'') : w.KeepsAll w'' :=
  ⟨fun g => (h.stack g).trans (h'.stack g), fun g => (h.handles g).trans (h'.handles g)⟩

theorem KeepsAll.modify {φ : Generator C → Generator C} (g : GeneratorId)
    (hfiber : ∀ x : Generator C, (φ x).fiber = x.fiber)
    (hplain : ∀ x : Generator C, (φ x).plain = x.plain)
    (hhandles : ∀ x : Generator C, (φ x).handles = x.handles) : w.KeepsAll (w.modify g φ) where
  stack k := by
    rcases w.generator_modify_cases g k φ with hk | hk
    · exact ⟨by rw [hk, hfiber], by rw [hk, hplain]⟩
    · exact ⟨by rw [hk], by rw [hk]⟩
  handles k := by
    rcases w.generator_modify_cases g k φ with hk | hk
    · exact ⟨by rw [hk, hhandles], fun _ => id⟩
    · exact ⟨by rw [hk], fun _ => id⟩

/-- A count of handles that changes leaves the stacks as they are. -/
theorem keepsStack_modify_handles (w : World C) (g : GeneratorId) (φ : Nat → Nat) (k : GeneratorId) :
    w.KeepsStack (w.modify g fun x => { x with handles := φ x.handles }) k := by
  rcases w.generator_modify_cases g k fun x => { x with handles := φ x.handles } with hk | hk
  · exact ⟨by rw [hk], by rw [hk]⟩
  · exact ⟨by rw [hk], by rw [hk]⟩

theorem keepsHandles_modify_of_ne {g k : GeneratorId} (φ : Generator C → Generator C) (hne : k ≠ g) :
    w.KeepsHandles (w.modify g φ) k :=
  ⟨by rw [generator_modify_of_ne hne], fun _ => id⟩

end World

namespace Machine

variable {P : Program C} {δ : GeneratorId → Prop} {g t : GeneratorId} {t₀ : Task C} {w w' w₁ : World C}
  {fs frames : List (Frame C)} {f : Frame C} {a b : Answer} {c c' : C} {q : Request C}
  {r : Except Exception Value} {u : Unwinding} {m : Machine C} {scopes : List (Scope C)}
  {captures : List (HeldGuard C)} {v : Value} {sent : Option Value} {size : Nat}
  {k : Except Exception (Option Value) → C} {s : Stage C} {scope : Scope C}
  {K K' : (Except Exception (Option Value) → C) → Prop}

/-! ### Producers that do not yield any more -/

theorem Within.eq_aborted (h : Within P fs ⟨w, .aborted, frames⟩ m) : m = ⟨w, .aborted, frames⟩ := by
  generalize hm : (⟨w, .aborted, frames⟩ : Machine C) = m₁ at h
  induction h with
  | refl => rfl
  | move _ _ _ ih =>
    subst hm
    exact ih rfl

/-- What has a frame on top is not back yet. -/
theorem Within.of_covered (h : Within P fs m ⟨w', .answer b, fs⟩) (hm : m.frames = f :: frames)
    (hfs : fs <:+ frames) : Within P fs (m.next P) ⟨w', .answer b, fs⟩ := by
  refine h.of_ne fun heq => ?_
  have hcovered : f :: frames <:+ frames := by
    rw [← hm, heq]
    exact hfs
  exact not_suffix_self hcovered

theorem Within.of_unwind (h : Within P fs ⟨w, .unwind u, frames⟩ ⟨w', .answer b, fs⟩) :
    Within P fs (next P ⟨w, .unwind u, frames⟩) ⟨w', .answer b, fs⟩ :=
  h.of_ne nofun

/-- What is done on top of a frame is over on top of it before the operation comes back. -/
theorem exists_returned (hm : Reachable P ⟨w, .task t₀, f :: frames⟩) (hf : ¬ f.IsPart)
    (hout : ∀ F : Fates, ¬ Awaits F .outcome (f :: frames)) (hfs : fs <:+ frames)
    (h : Within P fs ⟨w, .task t₀, f :: frames⟩ ⟨w', .answer b, fs⟩) :
    ∃ m, Over ⟨w, .task t₀, f :: frames⟩ m ∧ Reachable P (m.next P) ∧
      Within P fs (m.next P) ⟨w', .answer b, fs⟩ := by
  have hgone : ¬ f :: frames <:+ fs := fun hlonger => not_suffix_self (hlonger.trans hfs)
  obtain ⟨m, hbefore, hover, hafter⟩ := over_of_leaves hm hf hout rfl h hgone
  exact ⟨m, hover, (hm.leads hbefore.leads).move, hafter⟩

/-- What is released while frames are unwound does not stop that. -/
theorem exists_unwound (hm : Reachable P ⟨w, .task t₀, .unwinding u :: frames⟩) (hfs : fs <:+ frames)
    (h : Within P fs ⟨w, .task t₀, .unwinding u :: frames⟩ ⟨w', .answer b, fs⟩) :
    ∃ w₁, Reachable P ⟨w₁, .unwind u, frames⟩ ∧
      Within P fs ⟨w₁, .unwind u, frames⟩ ⟨w', .answer b, fs⟩ := by
  obtain ⟨m, hover, hm₁, hafter⟩ := exists_returned hm id (fun _ h => by cases h) hfs h
  cases hover with
  | answered w₁ a => exact ⟨w₁, hm₁, hafter⟩
  | unwound w₁ u' =>
    have hafter : Within P fs ⟨w₁, .aborted, frames⟩ ⟨w', .answer b, fs⟩ := hafter
    cases hafter.eq_aborted

/-- A producer whose frames are left does not come back. -/
theorem not_within_of_left
    (hm : Reachable P ⟨w, .unwind u, stackFiber scopes captures (.driving g :: fs)⟩) :
    ¬ Within P fs ⟨w, .unwind u, stackFiber scopes captures (.driving g :: fs)⟩
      ⟨w', .answer b, fs⟩ := by
  intro h
  induction scopes generalizing w with
  | nil =>
    obtain ⟨w₁, -, hafter⟩ := exists_unwound hm.move (List.suffix_cons _ fs) h.of_unwind
    have hafter : Within P fs ⟨leaveProducer w₁ g, .unwind u, fs⟩ _ := hafter.of_unwind
    exact not_within_of_unwind hafter
  | cons scope scopes ih =>
    obtain ⟨w₁, hm₁, hafter⟩ := exists_unwound hm.move (suffix_under_stackFiber ..) h.of_unwind
    exact ih hm₁ hafter

/-- A producer that is over comes back with its outcome, if it comes back. -/
theorem eq_of_outcome
    (hm : Reachable P ⟨w, .answer (.outcome r), stackFiber scopes captures (.driving g :: fs)⟩)
    (h : Within P fs ⟨w, .answer (.outcome r), stackFiber scopes captures (.driving g :: fs)⟩
      ⟨w', .answer b, fs⟩) : b = .progress (Reaction.ends r : Reaction C).result := by
  induction scopes generalizing w with
  | nil =>
    obtain ⟨m, hover, hm₁, hafter⟩ := exists_returned hm.move id (fun _ h => by cases h)
      (List.suffix_cons _ fs) (h.of_covered rfl (List.suffix_cons _ fs))
    cases hover with
    | answered w₁ a =>
      have hend : Over ⟨w, .stuck, fs⟩ ⟨w', .answer b, fs⟩ := .answered w' b
      rcases over_of_reacts hm₁ .ends hafter hend with ⟨_, heq⟩ | ⟨_, _, _, -, heq⟩
      · cases heq
        rfl
      · cases heq
    | unwound w₁ u =>
      have hafter : Within P fs ⟨w₁, .unwind u, .driving g :: fs⟩ _ := hafter
      exact absurd hafter.of_unwind not_within_of_unwind
  | cons scope scopes ih =>
    obtain ⟨m, hover, hm₁, hafter⟩ := exists_returned hm.move id (fun _ h => by cases h)
      (suffix_under_stackFiber ..) (h.of_covered rfl (suffix_under_stackFiber ..))
    cases hover with
    | answered w₁ a => exact ih hm₁ hafter
    | unwound w₁ u => exact absurd hafter (not_within_of_left hm₁)

/-- Code that quits comes back with its outcome, if it comes back. -/
theorem Quits.eq_result (h : Quits P r c)
    (hm : Reachable P ⟨w, .code c, stackFiber scopes captures (.driving g :: fs)⟩)
    (hback : Within P fs ⟨w, .code c, stackFiber scopes captures (.driving g :: fs)⟩
      ⟨w', .answer b, fs⟩) : b = .progress (Reaction.ends r : Reaction C).result := by
  induction h generalizing w scopes with
  | @finish c hP =>
    have hend : Within P fs ⟨w, .code c, stackFiber scopes captures (.driving g :: fs)⟩
        ⟨w, .answer (.outcome r), stackFiber scopes captures (.driving g :: fs)⟩ :=
      .of_code (suffix_under_stackFiber ..) hP rfl (.refl _)
    exact eq_of_outcome (hm.leads hend.leads) (hend.before_answer hback)
  | @silent c c' hP _ ih =>
    have hgoesOn : Within P fs ⟨w, .code c, stackFiber scopes captures (.driving g :: fs)⟩
        ⟨w, .code c', stackFiber scopes captures (.driving g :: fs)⟩ :=
      .of_code (suffix_under_stackFiber ..) hP rfl (.refl _)
    exact ih (hm.leads hgoesOn.leads) (hgoesOn.before_answer hback)
  | @leave c c' hP _ ih =>
    cases scopes with
    | nil =>
      have hgoesOn : Within P fs ⟨w, .code c, stackFiber [] captures (.driving g :: fs)⟩
          ⟨w, .code c', stackFiber [] captures (.driving g :: fs)⟩ :=
        .of_code (suffix_under_stackFiber ..) hP rfl (.refl _)
      exact ih (hm.leads hgoesOn.leads) (hgoesOn.before_answer hback)
    | cons scope scopes =>
      have hleaves : Within P fs
          ⟨w, .code c, stackFiber (scope :: scopes) captures (.driving g :: fs)⟩
          ⟨w, .task (.releaseScope scope),
            .resuming c' :: stackFiber scopes captures (.driving g :: fs)⟩ :=
        .of_code (suffix_under_stackFiber ..) hP rfl (.refl _)
      obtain ⟨m, hover, hm₁, hafter⟩ := exists_returned (hm.leads hleaves.leads) id
        (fun _ h => by cases h) (suffix_under_stackFiber ..) (hleaves.before_answer hback)
      cases hover with
      | answered w₁ a => exact ih hm₁ hafter
      | unwound w₁ u => exact absurd hafter (not_within_of_left hm₁)

/-- Code that comes to its end. -/
def Stops (P : Program C) (c : C) : Prop := ∃ r, Quits P r c

theorem Stops.not_isYield (h : Stops P c)
    (hm : Reachable P ⟨w, .code c, stackFiber scopes captures (.driving g :: fs)⟩)
    (hback : Within P fs ⟨w, .code c, stackFiber scopes captures (.driving g :: fs)⟩
      ⟨w', .answer b, fs⟩) : ¬ b.IsYield := by
  obtain ⟨r, hquits⟩ := h
  rw [hquits.eq_result hm hback]
  cases r <;> exact id

/-! ### Idle requests -/

theorem grant_idle (h : q.idle? = some c') (w : World C) (frames : List (Frame C)) :
    ∃ w', grant w frames q = ⟨w', .code c', frames⟩ ∧ w.KeepsAll w' := by
  cases q with
  | silent | emit | caught =>
    cases h
    exact ⟨_, rfl, .of_generators rfl rfl⟩
  | producerName =>
    cases h
    simp only [grant]
    split
    · exact ⟨_, rfl, .refl w⟩
    · exact ⟨_, rfl, .of_generators rfl rfl⟩
  | append =>
    cases h
    simp only [grant]
    split
    · exact ⟨_, rfl, .refl w⟩
    · exact ⟨_, rfl, .modify _ (fun x => by split <;> rfl) (fun x => by split <;> rfl)
        fun x => by split <;> rfl⟩
  | _ => cases h

/-- Code that makes the request, and does nothing before that touches stacks or handles. -/
inductive Asks (P : Program C) (q : Request C) : C → Prop
  | now {c : C} : P.next c = q → Asks P q c
  | later {c c' : C} : (P.next c).idle? = some c' → Asks P q c' → Asks P q c

theorem Asks.exists_within (h : Asks P q c) (w : World C) (hfs : fs <:+ frames) :
    ∃ w' c', Within P fs ⟨w, .code c, frames⟩ ⟨w', .code c', frames⟩ ∧ P.next c' = q ∧
      w.KeepsAll w' := by
  induction h generalizing w with
  | now hP => exact ⟨w, _, .refl _, hP, .refl w⟩
  | later hidle _ ih =>
    obtain ⟨w₁, hgrant, hkept⟩ := grant_idle hidle w frames
    obtain ⟨w', c', hwithin, hP, hkept'⟩ := ih w₁
    exact ⟨w', c', .of_code hfs rfl hgrant hwithin, hP, hkept.trans hkept'⟩

/-! ### Into a producer, and out of it -/

/-- A producer that is suspended when its generator is resumed goes on with what is sent. -/
theorem within_sent (hm : Reachable P ⟨w, .task (.resume g sent), fs⟩)
    (hf : (w.generator g).fiber = some ⟨size, .suspended k scopes captures⟩) :
    ∃ w', Within P fs ⟨w, .task (.resume g sent), fs⟩
        ⟨w', .code (k (.ok sent)), stackFiber scopes captures (.driving g :: fs)⟩ ∧
      w.Becomes g { w.generator g with
        running := true, fiber := some ⟨size, .active⟩, value := none } w' ∧
      w'.handles = w.handles := by
  have hrest : Rest (Coroutine.marks fs) g (w.generator g) := hm.sound.rest rfl
  have hlt : g < w.generators.size := w.lt_size_of_parked ⟨size, k, scopes, captures, hf⟩
  obtain ⟨hidle, hs⟩ := hrest.idle_of_parked ⟨size, k, scopes, captures, hf⟩
  have hnames₁ : (resume w fs g sent).world.handles = w.handles :=
    handles_perform (t := .resume g sent) (.inl rfl)
  obtain ⟨w₁, hresume, hb₁⟩ := resume_running fs hidle.running hs hidle.slots.value hlt sent
  have hnames₂ : (drive w₁ fs g).world.handles = w₁.handles :=
    handles_perform (t := .drive g) (.inl rfl)
  obtain ⟨w₂, hdrive, hb₂⟩ := drive_suspended (w := w₁) (g := g) fs
    (by rw [hb₁.self]; exact hf) (hb₁.size ▸ hlt)
  generalize hfs : stackFiber scopes captures (.driving g :: fs) = fs' at hdrive
  have hnames₃ : (wake w₂ fs' g k).world.handles = w₂.handles :=
    handles_perform (t := .wake g k) (.inl rfl)
  have hb := hb₁.trans hb₂
  rw [hb₁.self] at hb
  obtain ⟨w₃, hwake, hb₃⟩ := wake_value (w := w₂) (g := g) fs' k
    (by rw [hb.self]; exact hidle.slots.error) (hb.size ▸ hlt)
  have hvalue : (w₂.generator g).value = sent := by rw [hb.self]
  rw [hresume] at hnames₁
  rw [hdrive] at hnames₂
  rw [hwake] at hnames₃
  rw [hvalue] at hwake
  rw [hb.self] at hb₃
  refine ⟨w₃, ?_, hb.trans hb₃, hnames₃.trans (hnames₂.trans hnames₁)⟩
  exact .of_task (List.suffix_refl fs) hresume (.of_task (List.suffix_refl fs) hdrive
    (.of_task (hfs ▸ suffix_under_stackFiber ..) hwake (.refl _)))

theorem handles_yield (w : World C) (frames : List (Frame C)) (v : Value)
    (k : Except Exception (Option Value) → C) :
    (yield w frames v k).world.handles = w.handles := by
  unfold yield
  split
  · dsimp only
    repeat' split
    all_goals rfl
  · simp only [nameFiber]
    split <;> rfl
  · rfl

theorem handles_next_of_yield (hP : P.next c = .yield v k) (frames : List (Frame C)) :
    (next P ⟨w, .code c, frames⟩).world.handles = w.handles := by
  simp only [next, hP, grant]
  exact handles_yield ..

/-- A producer that yields comes back with the value, and is suspended with its stack. -/
theorem within_yielded
    (hm : Reachable P ⟨w, .code c, stackFiber scopes captures (.driving g :: fs)⟩)
    (hP : P.next c = .yield v k) :
    ∃ w' size, Within P fs ⟨w, .code c, stackFiber scopes captures (.driving g :: fs)⟩
        ⟨w', .answer (.progress (.ok (.yielded v))), fs⟩ ∧
      w.Becomes g { w.generator g with
        value := none, running := false, fiber := some ⟨size, .suspended k scopes captures⟩ } w' ∧
      w'.handles = w.handles := by
  obtain ⟨w₁, w₂, size, hyield, hsuspended, hb⟩ := becomes_of_yield hm.sound hP
  have hnames₁ := handles_next_of_yield (w := w) hP (stackFiber scopes captures (.driving g :: fs))
  have hnames₂ : (suspended w₁ fs g).world.handles = w₁.handles :=
    handles_perform (t := .suspended g) (.inl rfl)
  have hsuspended : suspended w₁ fs g = _ := hsuspended
  rw [hyield] at hnames₁
  rw [hsuspended] at hnames₂
  exact ⟨w₂, size, .move (suffix_under_stackFiber ..) nofun
    (hyield ▸ .of_task (List.suffix_refl fs) hsuspended (.refl _)), hb, hnames₂.trans hnames₁⟩

/-- Code that yields the value, and is suspended then with `K`. -/
def Offers (P : Program C) (K : (Except Exception (Option Value) → C) → Prop) (v : Value) (c : C) :
    Prop :=
  ∃ k, Asks P (.yield v k) c ∧ K k

/-- What offers a value comes back with it. -/
theorem Offers.exists_yielded (h : Offers P K v c)
    (hm : Reachable P ⟨w, .code c, stackFiber scopes captures (.driving g :: fs)⟩) :
    ∃ w' size k, Within P fs ⟨w, .code c, stackFiber scopes captures (.driving g :: fs)⟩
        ⟨w', .answer (.progress (.ok (.yielded v))), fs⟩ ∧ K k ∧
      (w'.generator g).fiber = some ⟨size, .suspended k scopes captures⟩ ∧
      (∀ i, i ≠ g → w.KeepsStack w' i) ∧ ∀ i, w.KeepsHandles w' i := by
  obtain ⟨k, hasks, hk⟩ := h
  obtain ⟨w₁, c', hidle, hP, hkept⟩ := hasks.exists_within w (suffix_under_stackFiber ..)
  obtain ⟨w₂, size, hyielded, hb, hnames⟩ := within_yielded (hm.leads hidle.leads) hP
  refine ⟨w₂, size, k, hidle.trans hyielded, hk, by rw [hb.self], fun i hne => ?_, fun i => ?_⟩
  · exact (hkept.stack i).trans ((hb.concerns hnames).keepsStack hne)
  · exact (hkept.handles i).trans (hb.keepsHandles hnames rfl i)

/-! ### Pulls -/

/-- Code that pulls on the generator that the link owns. It yields the value that it gets, and is
suspended then with `K`; if there is none it comes to its end. -/
inductive Fetches (P : Program C) (K : (Except Exception (Option Value) → C) → Prop) (s : Stage C)
    (c : C) : Prop
  | named {name : String} {catchesPanics : Bool} {k : Reply → C} : s.link = some (.generator name) →
      Asks P (.call (.resume name none) catchesPanics k) c →
      (∀ v, Offers P K v (k (.yielded v))) → (∀ r, (∀ v, r ≠ .yielded v) → Stops P (k r)) →
      Fetches P K s c
  | drawn {g : GeneratorId} {k : Item OpError → C} : s.link = some (.iterator (some g)) →
      s.above = [] → Asks P (.pull k) c → (∀ v, Offers P K v (k (.value v))) →
      (∀ i, (∀ v, i ≠ .value v) → Stops P (k i)) → Fetches P K s c

/-- The producer of the stage, suspended with `k`, lets exceptions escape, and whenever it is resumed it
hands on what it gets from the next stage. -/
def Relays (P : Program C) (s : Stage C) (k : Except Exception (Option Value) → C) : Prop :=
  ∃ K : (Except Exception (Option Value) → C) → Prop, K k ∧
    ∀ k, K k → LetsOut P k ∧ ∀ sent, Fetches P K s (k (.ok sent))

theorem Offers.imp (h : Offers P K v c) (hK : ∀ k, K k → K' k) : Offers P K' v c := by
  obtain ⟨k, hasks, hk⟩ := h
  exact ⟨k, hasks, hK k hk⟩

theorem Fetches.imp (h : Fetches P K s c) (hK : ∀ k, K k → K' k) : Fetches P K' s c := by
  cases h with
  | named hlink hasks hvalue hstops => exact .named hlink hasks (fun v => (hvalue v).imp hK) hstops
  | drawn hlink habove hasks hvalue hstops =>
    exact .drawn hlink habove hasks (fun v => (hvalue v).imp hK) hstops

theorem Relays.letsOut (h : Relays P s k) : LetsOut P k := by
  obtain ⟨K, hk, hK⟩ := h
  exact (hK k hk).1

theorem Relays.fetches (h : Relays P s k) (sent : Option Value) :
    Fetches P (Relays P s) s (k (.ok sent)) := by
  obtain ⟨K, hk, hK⟩ := h
  exact ((hK k hk).2 sent).imp fun k' hk' => ⟨K, hk', hK⟩

/-- The producer of the stage has come from the world `w` to a pull on `t` in the world `w₁`, which the
frame `f` waits for. It offers a value that it gets, and yields none if there is none. -/
structure Awaiting (P : Program C) (K : (Except Exception (Option Value) → C) → Prop) (s : Stage C)
    (fs : List (Frame C)) (t : GeneratorId) (w w₁ : World C) (f : Frame C) (frames : List (Frame C)) :
    Prop where
  part : ¬ f.IsPart
  outcome : ∀ F : Fates, ¬ Awaits F .outcome (f :: frames)
  below : fs <:+ frames
  stack : ∀ g, w.KeepsStack w₁ g
  handles : ∀ g, g ≠ t → w.KeepsHandles w₁ g
  value : ∀ w₂ v, w₁.KeepsHandles w₂ t →
    ∃ w₃ c, Within P fs ⟨w₂, .answer (.progress (.ok (.yielded v))), f :: frames⟩
        ⟨w₃, .code c, s.stack fs⟩ ∧ Offers P K v c ∧ (∀ g, w₂.KeepsStack w₃ g) ∧
      (∀ g, g ≠ t → w₂.KeepsHandles w₃ g) ∧ w.KeepsHandles w₃ t
  stops : ∀ m w' b, Reachable P m → Over ⟨w₁, .stuck, f :: frames⟩ m →
    (∀ v, m.control ≠ .answer (.progress (.ok (.yielded v)))) →
    Within P fs m ⟨w', .answer b, fs⟩ → ¬ b.IsYield

/-! #### By an iterator on the stack -/

theorem itemOf_ne {r : Except OpError (Progress Value Value)} (hr : ∀ v, r ≠ .ok (.yielded v))
    (v : Value) : itemOf r ≠ .value v := by
  rcases r with e | v' | v'
  · cases e <;> nofun
  · exact absurd rfl (hr v')
  · nofun

theorem finishPull_of_ne {k : Item OpError → C} {item : Item OpError} (hitem : ∀ v, item ≠ .value v)
    (source : Option GeneratorId) :
    finishPull w (.scope (.iterator source) :: frames) t k item =
      task w (.resuming (k item) :: .scope (.iterator none) :: frames) (.dropHandle t) := by
  cases item with
  | value v => exact absurd rfl (hitem v)
  | failed | ended => rfl

theorem awaiting_drawn {k : Item OpError → C} {below : List (Scope C)}
    (hscopes : s.scopes = .iterator (some t) :: below) (hvalue : ∀ v, Offers P K v (k (.value v)))
    (hstops : ∀ i, (∀ v, i ≠ .value v) → Stops P (k i)) (w : World C) :
    Awaiting P K s fs t w w (.pulling t k) (s.stack fs) where
  part := id
  outcome _ h := by cases h
  below := s.suffix_stack fs
  stack := (World.KeepsAll.refl w).stack
  handles g _ := (World.KeepsAll.refl w).handles g
  value w₂ v hkept := by
    have hback : Within P fs ⟨w₂, .answer (.progress (.ok (.yielded v))), .pulling t k :: s.stack fs⟩
        ⟨w₂, .code (k (.value v)), s.stack fs⟩ :=
      (Within.next_of_cons (List.suffix_refl _)).of_suffix (s.suffix_stack fs)
    have hsame := World.KeepsAll.refl w₂
    exact ⟨w₂, _, hback, hvalue v, hsame.stack, fun g _ => hsame.handles g, hkept⟩
  stops m w' b hm hover hother hback := by
    have hstack : s.stack fs = .scope (.iterator (some t)) ::
        stackFiber below s.captures (.driving s.generator :: fs) := by
      rw [Stage.stack, hscopes]
      rfl
    cases hover with
    | unwound w₁ u =>
      have hleft : next P ⟨w₁, .unwind u, .pulling t k :: s.stack fs⟩ =
          ⟨w₁, .unwind u, s.stack fs⟩ := by
        cases u <;> rfl
      have hmoved := hback.of_unwind
      have hm₁ := hm.move
      rw [hleft] at hmoved hm₁
      exact absurd hmoved (not_within_of_left hm₁)
    | answered w₁ a =>
      obtain ⟨κ, hκ, hfits⟩ := hm.sound.order
      obtain ⟨r, rfl⟩ : ∃ r, a = .progress r := by
        rw [hstack] at hκ
        cases hκ with
        | pulling =>
          cases a with
          | progress r => exact ⟨r, rfl⟩
          | _ => exact hfits.1.elim
      have hnone := itemOf_ne (r := r) fun v hv => hother v (by rw [hv])
      have hmoved := hback.of_covered rfl (s.suffix_stack fs)
      have hm₁ := hm.move
      -- the iterator drops its handle before the code goes on
      have hfinish : next P ⟨w₁, .answer (.progress r), .pulling t k :: s.stack fs⟩ =
          ⟨w₁, .task (.dropHandle t), .resuming (k (itemOf r)) ::
            stackFiber (.iterator none :: below) s.captures (.driving s.generator :: fs)⟩ := by
        rw [hstack]
        exact finishPull_of_ne hnone _
      rw [hfinish] at hmoved hm₁
      obtain ⟨m, hover, hm₂, hafter⟩ := exists_returned hm₁ id (fun _ h => by cases h)
        (suffix_under_stackFiber ..) hmoved
      cases hover with
      | answered w₂ a => exact (hstops _ hnone).not_isYield hm₂ hafter
      | unwound w₂ u => exact absurd hafter (not_within_of_left hm₂)

/-! #### By name -/

theorem reportProgress_ne {r : Except OpError (Progress Value Value)} (hr : ∀ v, r ≠ .ok (.yielded v))
    (w : World C) (v : Value) : (reportProgress w r).1 ≠ .yielded v := by
  rcases r with e | v' | v'
  · nofun
  · exact absurd rfl (hr v')
  · nofun

theorem reportClosed_ne (w : World C) (r : Except OpError Unit) (v : Value) :
    (reportClosed w r).1 ≠ .yielded v := by
  cases r <;> nofun

section

variable {k : Reply → C} {catchesPanics : Bool}

theorem suffix_calling (s : Stage C) (fs : List (Frame C)) (catchesPanics : Bool) (k : Reply → C) :
    fs <:+ .calling catchesPanics k :: s.stack fs :=
  (s.suffix_stack fs).trans (List.suffix_cons _ _)

/-- Whether it catches the panic that leaves its call or not, a producer does not yield then. -/
theorem not_isYield_of_unwind
    (hm : Reachable P ⟨w, .unwind u, .calling catchesPanics k :: s.stack fs⟩)
    (hstops : ∀ r, (∀ v, r ≠ .yielded v) → Stops P (k r))
    (h : Within P fs ⟨w, .unwind u, .calling catchesPanics k :: s.stack fs⟩ ⟨w', .answer b, fs⟩) :
    ¬ b.IsYield := by
  have hm₁ := hm.move
  have hmoved := h.of_unwind
  have hleft (hnext : next P ⟨w, .unwind u, .calling catchesPanics k :: s.stack fs⟩ =
      ⟨w, .unwind u, s.stack fs⟩) : ¬ b.IsYield := by
    rw [hnext] at hmoved hm₁
    exact absurd hmoved (not_within_of_left hm₁)
  cases catchesPanics with
  | false => exact hleft (by cases u <;> rfl)
  | true =>
    cases u with
    | cancel => exact hleft rfl
    | panic p => exact (hstops (.panicked p.message) nofun).not_isYield hm₁ hmoved

/-- A producer that gets another reply than a value does not yield. -/
theorem not_isYield_of_reply {r : Reply}
    (hm : Reachable P ⟨w, .answer (.reply r), .holding t :: .calling catchesPanics k :: s.stack fs⟩)
    (hstops : ∀ r, (∀ v, r ≠ .yielded v) → Stops P (k r)) (hr : ∀ v, r ≠ .yielded v)
    (h : Within P fs ⟨w, .answer (.reply r), .holding t :: .calling catchesPanics k :: s.stack fs⟩
      ⟨w', .answer b, fs⟩) : ¬ b.IsYield := by
  have hcalling := suffix_calling s fs catchesPanics k
  obtain ⟨m, hover, hm₁, hafter⟩ := exists_returned hm.move id (fun _ h => by cases h) hcalling
    (h.of_covered rfl hcalling)
  cases hover with
  | answered w₁ a =>
    have hafter : Within P fs ⟨w₁, .answer (.reply r), .calling catchesPanics k :: s.stack fs⟩ _ :=
      hafter
    exact (hstops r hr).not_isYield hm₁.move (hafter.of_covered rfl (s.suffix_stack fs))
  | unwound w₁ u => exact not_isYield_of_unwind hm₁ hstops hafter

/-- The step that a producer makes drops the handle that it has held meanwhile, and hands the value
over. -/
theorem within_handed (s : Stage C) (catchesPanics : Bool) (k : Reply → C) (v : Value)
    (hheld : 1 < (w.generator t).handles) :
    Within P fs ⟨w, .answer (.progress (.ok (.yielded v))),
        .reporting :: .holding t :: .calling catchesPanics k :: s.stack fs⟩
      ⟨(w.modify t fun x => { x with handles := x.handles - 1 }).note (.called (.yielded v)),
        .code (k (.yielded v)), s.stack fs⟩ := by
  have hcovered {w : World C} {a : Answer} {f : Frame C} {frames : List (Frame C)}
      (hfs : fs <:+ frames) :
      Within P fs ⟨w, .answer a, f :: frames⟩ (next P ⟨w, .answer a, f :: frames⟩) :=
    (Within.next_of_cons (List.suffix_refl _)).of_suffix hfs
  have hcalling := suffix_calling s fs catchesPanics k
  have hdrop := dropHandle_shared (w := w) (g := t)
    (.keeping (.reply (.yielded v)) :: .calling catchesPanics k :: s.stack fs)
    (fun hzero => absurd hzero (Nat.sub_ne_zero_of_lt hheld))
    (World.lt_size_of_handles (Nat.zero_lt_of_lt hheld))
  refine (hcovered (hcalling.trans (List.suffix_cons _ _))).trans ((hcovered hcalling).trans ?_)
  refine .of_task (hcalling.trans (List.suffix_cons _ _)) hdrop ((hcovered hcalling).trans ?_)
  exact hcovered (s.suffix_stack fs)

theorem awaiting_named (catchesPanics : Bool) (hheld : 0 < (w.generator t).handles)
    (hvalue : ∀ v, Offers P K v (k (.yielded v)))
    (hstops : ∀ r, (∀ v, r ≠ .yielded v) → Stops P (k r)) :
    Awaiting P K s fs t w (w.retain t) .reporting
      (.holding t :: .calling catchesPanics k :: s.stack fs) where
  part := id
  outcome _ h := by cases h with | reporting hκ => rcases hκ with hκ | hκ <;> cases hκ
  below := (suffix_calling s fs catchesPanics k).trans (List.suffix_cons _ _)
  stack := w.keepsStack_modify_handles t (· + 1)
  handles g hne := World.keepsHandles_modify_of_ne _ hne
  value w₂ v hkept := by
    have hcount : (w₂.generator t).handles = (w.generator t).handles + 1 := by
      rw [hkept.count, World.retain, World.generator_modify_self (World.lt_size_of_handles hheld)]
    have hlt : t < w₂.generators.size := World.lt_size_of_handles (by omega)
    refine ⟨_, _, within_handed s catchesPanics k v (by omega), hvalue v, fun g => ?_,
      fun g hne => ?_, ?_⟩
    · obtain ⟨hfiber, hplain⟩ := w₂.keepsStack_modify_handles t (· - 1) g
      exact ⟨hfiber, hplain⟩
    · obtain ⟨hheld, hnames⟩ := World.keepsHandles_modify_of_ne (w := w₂) (g := t)
        (fun x => { x with handles := x.handles - 1 }) hne
      exact ⟨hheld, hnames⟩
    · refine ⟨?_, hkept.names⟩
      rw [World.generator_note, World.generator_modify_self hlt, hcount]
      rfl
  stops m w' b hm hover hother hback := by
    have hcalling := suffix_calling s fs catchesPanics k
    cases hover with
    | unwound w₁ u =>
      have hleft : next P ⟨w₁, .unwind u,
            .reporting :: .holding t :: .calling catchesPanics k :: s.stack fs⟩ =
          ⟨w₁, .unwind u, .holding t :: .calling catchesPanics k :: s.stack fs⟩ := by
        cases u <;> rfl
      have hmoved := hback.of_unwind
      have hm₁ := hm.move
      rw [hleft] at hmoved hm₁
      obtain ⟨w₂, hm₂, hafter⟩ := exists_unwound hm₁.move hcalling hmoved.of_unwind
      exact not_isYield_of_unwind hm₂ hstops hafter
    | answered w₁ a =>
      obtain ⟨κ, hκ, hfits⟩ := hm.sound.order
      have hmoved := hback.of_covered rfl (hcalling.trans (List.suffix_cons _ _))
      cases hκ with
      | reporting hκ =>
        rcases hκ with rfl | rfl
        · cases a with
          | progress r =>
            have hr : ∀ v, r ≠ .ok (.yielded v) := fun v hv => hother v (by rw [hv])
            exact not_isYield_of_reply hm.move hstops (reportProgress_ne hr w₁) hmoved
          | _ => exact hfits.1.elim
        · cases a with
          | closed r => exact not_isYield_of_reply hm.move hstops (reportClosed_ne w₁ r) hmoved
          | _ => exact hfits.1.elim

end

/-! #### By either -/

theorem Awaiting.earlier {w₀ : World C} (h : Awaiting P K s fs t w w₁ f frames)
    (hkept : w₀.KeepsAll w) : Awaiting P K s fs t w₀ w₁ f frames where
  part := h.part
  outcome := h.outcome
  below := h.below
  stack g := (hkept.stack g).trans (h.stack g)
  handles g hne := (hkept.handles g).trans (h.handles g hne)
  value w₂ v hsame := by
    obtain ⟨w₃, c, hback, hoffers, hstack, hothers, hself⟩ := h.value w₂ v hsame
    exact ⟨w₃, c, hback, hoffers, hstack, hothers, (hkept.handles t).trans hself⟩
  stops := h.stops

/-- Code that fetches comes to its pull. -/
theorem Fetches.exists_awaiting (h : Fetches P K s c) (hlink : s.link = some scope)
    (howns : w.Owns t scope) (hheld : 0 < (w.generator t).handles) (fs : List (Frame C)) :
    ∃ w₁ f frames, Within P fs ⟨w, .code c, s.stack fs⟩ ⟨w₁, .task (.resume t none), f :: frames⟩ ∧
      Awaiting P K s fs t w w₁ f frames := by
  have hstack := s.suffix_stack fs
  cases h with
  | @named name catchesPanics k hnamed hasks hvalue hstops =>
    obtain ⟨w₀, c₀, hto, hP, hkept⟩ := hasks.exists_within w hstack
    cases hlink.symm.trans hnamed
    cases howns with
    | named hname =>
      have hfind := (hkept.handles t).names name hname
      have hheld₀ : 0 < (w₀.generator t).handles := (hkept.handles t).count ▸ hheld
      have hcalls : Within P fs ⟨w₀, .code c₀, s.stack fs⟩ ⟨w₀.retain t, .task (.resume t none),
          .reporting :: .holding t :: .calling catchesPanics k :: s.stack fs⟩ := by
        refine .of_code hstack hP rfl (.of_task (suffix_calling s fs _ _) ?_ (.refl _))
        simp only [perform, makeStep, operate, hfind, task]
      exact ⟨_, _, _, hto.trans hcalls,
        (awaiting_named catchesPanics hheld₀ hvalue hstops).earlier hkept⟩
  | @drawn g k hdrawn habove hasks hvalue hstops =>
    obtain ⟨w₀, c₀, hto, hP, hkept⟩ := hasks.exists_within w hstack
    cases hlink.symm.trans hdrawn
    cases howns with
    | iterator =>
      have hscopes : s.scopes = .iterator (some t) :: s.below := by
        rw [Stage.scopes, habove, hlink]
        rfl
      have hpulls : Within P fs ⟨w₀, .code c₀, s.stack fs⟩
          ⟨w₀, .task (.resume t none), .pulling t k :: s.stack fs⟩ := by
        refine .of_code hstack hP ?_ (.refl _)
        rw [Stage.stack, hscopes]
        rfl
      exact ⟨_, _, _, hto.trans hpulls, (awaiting_drawn hscopes hvalue hstops w₀).earlier hkept⟩

/-! ### Pulls that are handed on -/

/-- A pull on the stage in the world `w` has come to a pull on `t` in the world `w₁`, on top of
`frames`. -/
structure Relayed (P : Program C) (s : Stage C) (fs : List (Frame C)) (t : GeneratorId)
    (w w₁ : World C) (frames : List (Frame C)) : Prop where
  below : fs <:+ frames
  stack : ∀ g, g ≠ s.generator → w.KeepsStack w₁ g
  handles : ∀ g, g ≠ t → w.KeepsHandles w₁ g
  /-- With the value that the second pull comes back with the first one comes back too, -/
  value : ∀ w₂ v, Reachable P ⟨w₂, .answer (.progress (.ok (.yielded v))), frames⟩ →
    w₁.KeepsHandles w₂ t →
    ∃ w₃ size k, Within P fs ⟨w₂, .answer (.progress (.ok (.yielded v))), frames⟩
        ⟨w₃, .answer (.progress (.ok (.yielded v))), fs⟩ ∧ Relays P s k ∧
      (w₃.generator s.generator).fiber = some ⟨size, .suspended k s.scopes s.captures⟩ ∧
      (∀ g, g ≠ s.generator → w₂.KeepsStack w₃ g) ∧ (∀ g, g ≠ t → w₂.KeepsHandles w₃ g) ∧
      w.KeepsHandles w₃ t
  /-- and with no value otherwise. -/
  yields : ∀ w' v, Within P fs ⟨w₁, .task (.resume t none), frames⟩
      ⟨w', .answer (.progress (.ok (.yielded v))), fs⟩ →
    ∃ w₂ v, Within P frames ⟨w₁, .task (.resume t none), frames⟩
      ⟨w₂, .answer (.progress (.ok (.yielded v))), frames⟩

/-- A pull on a producer that relays comes to a pull on the generator that the link owns. -/
theorem Relays.exists_relayed (h : Relays P s k)
    (hm : Reachable P ⟨w, .task (.resume s.generator sent), fs⟩)
    (hf : (w.generator s.generator).fiber = some ⟨size, .suspended k s.scopes s.captures⟩)
    (hlink : s.link = some scope) (howns : w.Owns t scope) (hheld : 0 < (w.generator t).handles) :
    ∃ w₁ frames, Within P fs ⟨w, .task (.resume s.generator sent), fs⟩
        ⟨w₁, .task (.resume t none), frames⟩ ∧ Relayed P s fs t w w₁ frames := by
  obtain ⟨w₀, hsent, hb, hnames⟩ := within_sent hm hf
  have hkept (g : GeneratorId) := hb.keepsHandles hnames rfl g
  obtain ⟨w₁, f, frames, hpulls, hawaiting⟩ := (h.fetches sent).exists_awaiting hlink
    ((hkept t).owns howns) ((hkept t).count ▸ hheld) fs
  have hto := hsent.trans hpulls
  have hm₁ := hm.leads hto.leads
  refine ⟨w₁, f :: frames, hto, hawaiting.below.trans (List.suffix_cons _ _), fun g hne => ?_,
    fun g hne => (hkept g).trans (hawaiting.handles g hne), fun w₂ v hm₂ hsame => ?_,
    fun w' v hback => ?_⟩
  · exact ((hb.concerns hnames).keepsStack hne).trans (hawaiting.stack g)
  · obtain ⟨w₃, c, hgot, hoffers, hstack, hothers, hself⟩ := hawaiting.value w₂ v hsame
    obtain ⟨w₄, size', k', hyielded, hk', hf', hstack', hhandles'⟩ :=
      hoffers.exists_yielded (hm₂.leads hgot.leads)
    exact ⟨w₄, size', k', hgot.trans hyielded, hk', hf', fun g hne => (hstack g).trans (hstack' g hne),
      fun g hne => (hothers g hne).trans (hhandles' g),
      (hkept t).trans (hself.trans (hhandles' t))⟩
  · have hgone : ¬ f :: frames <:+ fs := fun hlonger =>
      not_suffix_self (hlonger.trans hawaiting.below)
    obtain ⟨m, hinner, hover, -⟩ :=
      over_of_leaves hm₁ hawaiting.part hawaiting.outcome rfl hback hgone
    have htom := hinner.of_suffix (hawaiting.below.trans (List.suffix_cons _ _))
    by_cases hvalue : ∃ v, m.control = .answer (.progress (.ok (.yielded v)))
    · obtain ⟨v₁, hv₁⟩ := hvalue
      cases hover with
      | answered w₂ a =>
        cases hv₁
        exact ⟨w₂, v₁, hinner⟩
      | unwound => cases hv₁
    · exact absurd trivial (hawaiting.stops m w' _ (hm₁.leads htom.leads) (hover.of_frames rfl)
        (fun v hv => hvalue ⟨v, hv⟩) (htom.before_answer hback))

end Machine

end Coroutine
