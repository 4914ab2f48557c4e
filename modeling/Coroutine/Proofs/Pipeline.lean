import Coroutine.Proofs.Closing
import Coroutine.Proofs.Escaping

/-! Pipelines: generators whose producers are suspended, each of which owns the last handle of the
next one. Main statement: a pipeline stays one as long as the stacks of its producers and the handles
between them stay as they are. -/

namespace Coroutine

variable {C : Type}

/-- A stage of a pipeline: a generator, what is on the stack of its producer, and what its entry
procedure captured. -/
structure Stage (C : Type) where
  generator : GeneratorId
  above : List (Scope C)
  /-- The scope that owns the handle of the next generator. -/
  link : Option (Scope C)
  below : List (Scope C)
  captures : List (HeldGuard C)

/-- The scopes on the stack of the producer. -/
def Stage.scopes (s : Stage C) : List (Scope C) := s.above ++ (s.link.toList ++ s.below)

/-- What is recorded of the release of a scope. -/
def Scope.releases : Scope C → List Event
  | guard held => [held.release]
  | _ => []

/-- What is recorded, in this order, when the stages of a pipeline come to their ends: the guards above
the next stages are released, these stages come to their ends, the other guards are released, the
producer is over, and the cleanup gets the payload. -/
inductive Unwinds : List (Stage C) → List Event → Prop
  | nil : Unwinds [] []
  | cons {s : Stage C} {rest : List (Stage C)} {es : List Event} (name : String)
      (payload : List Value) : Unwinds rest es →
      Unwinds (s :: rest) (s.above.flatMap Scope.releases ++ es ++
        s.below.flatMap Scope.releases ++ s.captures.map HeldGuard.release ++
        [termination s.generator name, .cleanup s.generator name payload])

namespace World

variable {K K' : Stage C → (Except Exception (Option Value) → C) → Prop} {w w' w'' : World C}
  {g : GeneratorId} {s : Stage C} {rest stages : List (Stage C)} {scope : Scope C}

/-- The scope owns a handle of `g`, by itself or by a name. -/
inductive Owns (w : World C) (g : GeneratorId) : Scope C → Prop
  | iterator : Owns w g (.iterator (some g))
  | named {name : String} : w.handles.find? name = some g → Owns w g (.generator name)

/-- Every stage but the last one owns the last handle of the next one. -/
inductive Linked (w : World C) : List (Stage C) → Prop
  | nil : Linked w []
  | last {s : Stage C} : s.link = none → Linked w [s]
  | next {s t : Stage C} {rest : List (Stage C)} {scope : Scope C} : s.link = some scope →
      w.Owns t.generator scope → (w.generator t.generator).handles = 1 → Linked w (t :: rest) →
      Linked w (s :: t :: rest)

/-- The producer of the stage is suspended with `K` for what it goes on with, and the generator has a
cleanup callback. -/
structure Suspended (K : Stage C → (Except Exception (Option Value) → C) → Prop) (w : World C)
    (s : Stage C) : Prop where
  fiber : ∃ size k,
    (w.generator s.generator).fiber = some ⟨size, .suspended k s.scopes s.captures⟩ ∧ K s k
  callback : (w.generator s.generator).plain = false

/-- The stages make up a pipeline. -/
structure Pipeline (K : Stage C → (Except Exception (Option Value) → C) → Prop) (w : World C)
    (stages : List (Stage C)) : Prop where
  suspended : ∀ s ∈ stages, w.Suspended K s
  linked : w.Linked stages
  distinct : (stages.map Stage.generator).Nodup

/-- The stack of `g` stays as it is. -/
structure KeepsStack (w w' : World C) (g : GeneratorId) : Prop where
  fiber : (w'.generator g).fiber = (w.generator g).fiber
  plain : (w'.generator g).plain = (w.generator g).plain

/-- The handles of `g` stay as they are. -/
structure KeepsHandles (w w' : World C) (g : GeneratorId) : Prop where
  count : (w'.generator g).handles = (w.generator g).handles
  names : ∀ name, w.handles.find? name = some g → w'.handles.find? name = some g

theorem KeepsStack.trans (h : w.KeepsStack w' g) (h' : w'.KeepsStack w'' g) : w.KeepsStack w'' g :=
  ⟨h'.fiber.trans h.fiber, h'.plain.trans h.plain⟩

theorem KeepsHandles.trans (h : w.KeepsHandles w' g) (h' : w'.KeepsHandles w'' g) :
    w.KeepsHandles w'' g :=
  ⟨h'.count.trans h.count, fun name hname => h'.names name (h.names name hname)⟩

theorem KeepsHandles.owns (h : w.KeepsHandles w' g) (howns : w.Owns g scope) : w'.Owns g scope := by
  cases howns with
  | iterator => exact .iterator
  | named hname => exact .named (h.names _ hname)

theorem Linked.kept (h : w.Linked stages) (hsame : ∀ s ∈ stages.tail, w.KeepsHandles w' s.generator) :
    w'.Linked stages := by
  induction h with
  | nil => exact .nil
  | last hlink => exact .last hlink
  | @next s t rest scope hlink howns hlast _ ih =>
    have hkeeps := hsame t (.head _)
    exact .next hlink (hkeeps.owns howns) (hkeeps.count.trans hlast)
      (ih fun u hu => hsame u (List.mem_of_mem_tail hu))

theorem Suspended.parked (h : w.Suspended K s) : (w.generator s.generator).Parked := by
  obtain ⟨size, k, hf, -⟩ := h.fiber
  exact ⟨size, k, s.scopes, s.captures, hf⟩

theorem Suspended.kept (h : w.Suspended K s) (hsame : w.KeepsStack w' s.generator) :
    w'.Suspended K s := by
  obtain ⟨size, k, hf, hk⟩ := h.fiber
  exact ⟨⟨size, k, hsame.fiber.trans hf, hk⟩, hsame.plain.trans h.callback⟩

theorem Suspended.imp (h : w.Suspended K s) (hK : ∀ k, K s k → K' s k) : w.Suspended K' s := by
  obtain ⟨size, k, hf, hk⟩ := h.fiber
  exact ⟨⟨size, k, hf, hK k hk⟩, h.callback⟩

theorem Pipeline.imp (h : w.Pipeline K stages) (hK : ∀ s ∈ stages, ∀ k, K s k → K' s k) :
    w.Pipeline K' stages where
  suspended s hs := (h.suspended s hs).imp (hK s hs)
  linked := h.linked
  distinct := h.distinct

theorem Pipeline.ne_of_mem (h : w.Pipeline K (s :: rest)) {t : Stage C} (ht : t ∈ rest) :
    t.generator ≠ s.generator := by
  intro heq
  exact (List.nodup_cons.mp h.distinct).1 (heq ▸ List.mem_map_of_mem ht)

theorem Pipeline.tail (h : w.Pipeline K (s :: rest)) : w.Pipeline K rest where
  suspended t ht := h.suspended t (.tail _ ht)
  linked := by
    cases h.linked with
    | last => exact .nil
    | next _ _ _ hrest => exact hrest
  distinct := (List.nodup_cons.mp h.distinct).2

/-- The first of several stages owns the last handle of the second one. -/
theorem Pipeline.exists_link {t : Stage C} (h : w.Pipeline K (s :: t :: rest)) :
    ∃ scope, s.link = some scope ∧ w.Owns t.generator scope ∧ (w.generator t.generator).handles = 1 := by
  cases h.linked with
  | next hlink howns hlast => exact ⟨_, hlink, howns, hlast⟩

/-- A pipeline whose stacks and handles stay as they are stays one. -/
theorem Pipeline.kept (h : w.Pipeline K stages) (hstacks : ∀ s ∈ stages, w.KeepsStack w' s.generator)
    (hhandles : ∀ s ∈ stages.tail, w.KeepsHandles w' s.generator) : w'.Pipeline K stages where
  suspended s hs := (h.suspended s hs).kept (hstacks s hs)
  linked := h.linked.kept hhandles
  distinct := h.distinct

/-- Nothing is done to generators but `g`, nor to their names. -/
structure Concerns (g : GeneratorId) (w w' : World C) : Prop where
  other : ∀ k, k ≠ g → w'.generator k = w.generator k
  names : ∀ name, w.handles.find? name ≠ some g → w'.handles.find? name = w.handles.find? name

theorem Becomes.concerns {x : Generator C} (h : w.Becomes g x w') (hnames : w'.handles = w.handles) :
    w.Concerns g w' :=
  ⟨h.other, fun name _ => by rw [hnames]⟩

theorem Becomes.keepsHandles {x : Generator C} (h : w.Becomes g x w') (hnames : w'.handles = w.handles)
    (hx : x.handles = (w.generator g).handles) (k : GeneratorId) : w.KeepsHandles w' k := by
  refine ⟨?_, fun name hname => hnames ▸ hname⟩
  by_cases hk : k = g
  · rw [hk, h.self, hx]
  · rw [h.other k hk]

theorem Concerns.keepsStack (h : w.Concerns g w') {k : GeneratorId} (hne : k ≠ g) :
    w.KeepsStack w' k := by
  have hsame := h.other k hne
  exact ⟨congrArg Generator.fiber hsame, congrArg Generator.plain hsame⟩

theorem Concerns.keepsHandles (h : w.Concerns g w') {k : GeneratorId} (hne : k ≠ g) :
    w.KeepsHandles w' k := by
  refine ⟨congrArg Generator.handles (h.other k hne), fun name hname => ?_⟩
  have hother : w.handles.find? name ≠ some g := by
    rw [hname]
    exact fun heq => hne (Option.some.inj heq)
  rw [h.names name hother, hname]

/-- What is done to the first generator leaves the pipeline as it is, if its stack stays. -/
theorem Pipeline.of_first (h : w.Pipeline K (s :: rest)) (hconcerns : w.Concerns s.generator w')
    (hstack : w.KeepsStack w' s.generator) : w'.Pipeline K (s :: rest) := by
  refine h.kept (fun t ht => ?_) fun t ht => hconcerns.keepsHandles (h.ne_of_mem ht)
  rcases List.mem_cons.mp ht with rfl | ht
  · exact hstack
  · exact hconcerns.keepsStack (h.ne_of_mem ht)

/-- What is done to the first generator does not concern the rest. -/
theorem Pipeline.rest_of_first (h : w.Pipeline K (s :: rest)) (hconcerns : w.Concerns s.generator w') :
    w'.Pipeline K rest := by
  refine h.tail.kept (fun t ht => hconcerns.keepsStack (h.ne_of_mem ht)) fun t ht => ?_
  exact hconcerns.keepsHandles (h.ne_of_mem (List.mem_of_mem_tail ht))

/-- The generators of the stages have ended. -/
def Finished (w : World C) (stages : List (Stage C)) : Prop :=
  ∀ s ∈ stages, s.generator < w.generators.size ∧ (w.generator s.generator).status = .finished

/-- Between the two worlds the stages have come to their ends. -/
structure WindsUp (w w' : World C) (stages : List (Stage C)) : Prop where
  finished : w'.Finished stages
  told : ∃ es, Unwinds stages es ∧ w.Tells w' es

theorem Finished.later {P : Program C} {m m' : Machine C} (h : m.world.Finished stages)
    (hm : Machine.Reachable P m) (hlead : Machine.Leads P m m') : m'.world.Finished stages := by
  intro s hs
  obtain ⟨hlt, hfinished⟩ := h s hs
  exact ⟨Nat.lt_of_lt_of_le hlt (Machine.size_le_of_leads hlead),
    Machine.status_of_leads hm hlead hlt hfinished⟩

theorem WindsUp.earlier (h : w'.WindsUp w'' stages) (hw : w.history <:+ w'.history) :
    w.WindsUp w'' stages := by
  obtain ⟨es, hes, htold⟩ := h.told
  exact ⟨h.finished, es, hes, htold.earlier hw⟩

theorem WindsUp.later {P : Program C} {m m' : Machine C} (h : w.WindsUp m.world stages)
    (hm : Machine.Reachable P m) (hlead : Machine.Leads P m m') : w.WindsUp m'.world stages := by
  obtain ⟨es, hes, htold⟩ := h.told
  exact ⟨h.finished.later hm hlead, es, hes, htold.later (Machine.history_of_leads hm hlead)⟩

end World

namespace Machine

/-- Whatever is released when the stages come to their ends is released without a panic, and what is
above the links leaves the stages alone whose producers are still suspended. -/
structure Gentle (P : Program C) (m₀ : Machine C) (stages : List (Stage C)) : Prop where
  above : ∀ s ∈ stages, ∀ scope ∈ s.above, ∀ w, Returns P m₀ (.releaseScope scope) (fun w' =>
    ∀ t ∈ stages, (w.generator t.generator).Parked →
      w.KeepsStack w' t.generator ∧ w.KeepsHandles w' t.generator) w
  below : ∀ s ∈ stages, ∀ scope ∈ s.below, ∀ w,
    Returns P m₀ (.releaseScope scope) (fun _ => True) w
  captures : ∀ s ∈ stages, ∀ w, Returns P m₀ (.release s.captures) (fun _ => True) w
  payload : ∀ s ∈ stages, ∀ w, Returns P m₀ (.releasePayload s.generator) (fun _ => True) w

end Machine

end Coroutine
