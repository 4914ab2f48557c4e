import Coroutine.Proofs.Cascade
import Coroutine.Proofs.Relaying

/-! Pulls on pipelines. Main statement: if the producers of a pipeline hand on what they get, it stays a
pipeline however often it is pulled on, and over every run it comes to its end then too. -/

namespace Coroutine

variable {C : Type}

/-- The stages are the same but for the stack of the last one. -/
inductive Renews : List (Stage C) → List (Stage C) → Prop
  | last {s t : Stage C} : s.link = none → t.link = none → t.generator = s.generator → Renews [s] [t]
  | cons {stages stages' : List (Stage C)} (s : Stage C) : Renews stages stages' →
      Renews (s :: stages) (s :: stages')

namespace Renews

variable {s : Stage C} {stages stages' stages'' rest : List (Stage C)}

theorem refl {w : World C} (h : w.Linked (s :: rest)) : Renews (s :: rest) (s :: rest) := by
  induction rest generalizing s with
  | nil =>
    cases h with
    | last hlink => exact .last hlink hlink rfl
  | cons t rest ih =>
    cases h with
    | next _ _ _ hrest => exact .cons s (ih hrest)

theorem trans (h : Renews stages stages') (h' : Renews stages' stages'') : Renews stages stages'' := by
  induction h generalizing stages'' with
  | last hs ht hgenerator =>
    cases h' with
    | last _ hu hgenerator' => exact .last hs hu (hgenerator'.trans hgenerator)
    | cons _ h => cases h
  | cons s hrest ih =>
    cases h' with
    | last => cases hrest
    | cons _ h => exact .cons s (ih h)

theorem exists_first (h : Renews (s :: rest) stages) : ∃ t rest', stages = t :: rest' := by
  cases h <;> exact ⟨_, _, rfl⟩

theorem generators (h : Renews stages stages') :
    stages'.map Stage.generator = stages.map Stage.generator := by
  induction h with
  | last _ _ h => simp [h]
  | cons s _ ih => simp [ih]

/-- A renewed stage has the generator of one of the old ones. -/
theorem exists_mem (h : Renews stages stages') {t : Stage C} (ht : t ∈ stages') :
    ∃ u ∈ stages, u.generator = t.generator :=
  List.mem_map.mp (h.generators ▸ List.mem_map_of_mem ht)

end Renews

namespace Machine

variable {P : Program C} {g : GeneratorId} {w w' : World C} {fs : List (Frame C)} {m₀ m m' : Machine C}
  {v : Value} {sent : Option Value} {k : Except Exception (Option Value) → C} {s : Stage C}
  {rest : List (Stage C)} {ids : List GeneratorId}

/-! ### One pull -/

/-- The rest of a pipeline is one when the pull on the first stage comes to it. -/
theorem Relayed.pipeline {K : Stage C → (Except Exception (Option Value) → C) → Prop} {t : Stage C}
    {w₁ : World C} {frames : List (Frame C)} (hrelayed : Relayed P s fs t.generator w w₁ frames)
    (h : w.Pipeline K (s :: t :: rest)) : w₁.Pipeline K (t :: rest) :=
  h.tail.kept (fun _ hu => hrelayed.stack _ (h.ne_of_mem hu))
    fun _ hu => hrelayed.handles _ (h.tail.ne_of_mem hu)

/-- The producer of `g`, suspended with `k`, lets exceptions escape. Whenever it is resumed from `m₀` on
and comes back with a value, the handles of `ids` are as they were, and the same is true of it again. -/
def Feeds (P : Program C) (m₀ : Machine C) (ids : List GeneratorId) (g : GeneratorId)
    (k : Except Exception (Option Value) → C) : Prop :=
  ∃ K : (Except Exception (Option Value) → C) → Prop, K k ∧ ∀ k, K k → LetsOut P k ∧
    ∀ w w' fs sent v size scopes captures,
      Later P m₀ ⟨w, .task (.resume g sent), fs⟩ →
      (w.generator g).fiber = some ⟨size, .suspended k scopes captures⟩ →
      Within P fs ⟨w, .task (.resume g sent), fs⟩ ⟨w', .answer (.progress (.ok (.yielded v))), fs⟩ →
      (∀ id ∈ ids, w.KeepsHandles w' id) ∧ ∀ size k scopes captures,
        (w'.generator g).fiber = some ⟨size, .suspended k scopes captures⟩ → K k

/-- The producer of the stage, suspended with `k`, hands on what it gets from the next stage; that of the
last stage feeds the others. -/
def Conveys (P : Program C) (m₀ : Machine C) (ids : List GeneratorId) (s : Stage C)
    (k : Except Exception (Option Value) → C) : Prop :=
  match s.link with
  | some _ => Relays P s k
  | none => Feeds P m₀ ids s.generator k

theorem Conveys.letsOut (h : Conveys P m₀ ids s k) : LetsOut P k := by
  unfold Conveys at h
  split at h
  · exact h.letsOut
  · obtain ⟨K, hk, hK⟩ := h
    exact (hK k hk).1

/-- The producer, suspended with `k`, lets exceptions escape, and yields whenever it is resumed. -/
def Springs (P : Program C) (k : Except Exception (Option Value) → C) : Prop :=
  ∃ K : (Except Exception (Option Value) → C) → Prop, K k ∧
    ∀ k, K k → LetsOut P k ∧ ∀ sent, ∃ v, Offers P K v (k (.ok sent))

/-- A pull on a producer that yields comes back with a value, and the handles stay as they are. -/
theorem exists_sprung {K : (Except Exception (Option Value) → C) → Prop} {size : Nat}
    {scopes : List (Scope C)} {captures : List (HeldGuard C)}
    (hm : Reachable P ⟨w, .task (.resume g sent), fs⟩)
    (hf : (w.generator g).fiber = some ⟨size, .suspended k scopes captures⟩)
    (hoffers : Offers P K v (k (.ok sent))) :
    ∃ w' size k, Within P fs ⟨w, .task (.resume g sent), fs⟩
        ⟨w', .answer (.progress (.ok (.yielded v))), fs⟩ ∧ K k ∧
      (w'.generator g).fiber = some ⟨size, .suspended k scopes captures⟩ ∧
      ∀ i, w.KeepsHandles w' i := by
  obtain ⟨w₁, hsent, hb, hnames⟩ := within_sent hm hf
  obtain ⟨w', size', k', hyielded, hk', hf', -, hkept⟩ :=
    hoffers.exists_yielded (hm.leads hsent.leads)
  exact ⟨w', size', k', hsent.trans hyielded, hk', hf',
    fun i => (hb.keepsHandles hnames rfl i).trans (hkept i)⟩

theorem Springs.feeds (hm₀ : Reachable P m₀) (h : Springs P k) (ids : List GeneratorId)
    (g : GeneratorId) : Feeds P m₀ ids g k := by
  obtain ⟨K, hk, hK⟩ := h
  refine ⟨K, hk, fun k hk => ⟨(hK k hk).1, ?_⟩⟩
  intro w w' fs sent v size scopes captures hlater hf hback
  obtain ⟨v', hoffers⟩ := (hK k hk).2 sent
  obtain ⟨w₁, size', k', hsprung, hk', hf', hkept⟩ := exists_sprung (hm₀.later hlater) hf hoffers
  obtain ⟨rfl, -⟩ := hback.unique hsprung
  refine ⟨fun id _ => hkept id, fun size₁ k₁ scopes₁ captures₁ hf₁ => ?_⟩
  cases hf'.symm.trans hf₁
  exact hk'

/-- A producer that yields leaves another one suspended. -/
theorem exists_suspended (hm : Reachable P ⟨w, .task (.resume g sent), fs⟩)
    (hparked : (w.generator g).Parked)
    (hback : Within P fs ⟨w, .task (.resume g sent), fs⟩
      ⟨w', .answer (.progress (.ok (.yielded v))), fs⟩) : (w'.generator g).Parked := by
  obtain ⟨size, k, scopes, captures, hf⟩ := hparked
  have hlt : g < w.generators.size := w.lt_size_of_parked ⟨size, k, scopes, captures, hf⟩
  obtain ⟨w₁, hsent, -, -⟩ := within_sent hm hf
  have hend : Over ⟨w, .task (.drive g), fs⟩ ⟨w', .answer (.progress (.ok (.yielded v))), fs⟩ :=
    .answered w' _
  have hswitched := switched_of_driving hm hlt hsent (suffix_stackFiber ..)
    (hsent.before_answer hback) rfl hend
  generalize hm' : (⟨w', .answer (.progress (.ok (.yielded v))), fs⟩ : Machine C) = m' at hswitched
  cases hswitched with
  | yielded w'' _ _ _ hf' =>
    cases hm'
    exact ⟨_, _, _, _, hf'⟩
  | @ended _ _ r =>
    have hcontrol := congrArg Machine.control hm'
    cases r <;> simp [Reaction.result] at hcontrol
  | dead | panicked | uncleaned => cases hm'

/-- A pull on the last stage that comes back with a value leaves it suspended. -/
theorem exists_fed (hm₀ : Reachable P m₀) (hlater : Later P m₀ ⟨w, .task (.resume s.generator sent), fs⟩)
    (h : w.Suspended (Conveys P m₀ ids) s) (hlink : s.link = none)
    (hback : Within P fs ⟨w, .task (.resume s.generator sent), fs⟩
      ⟨w', .answer (.progress (.ok (.yielded v))), fs⟩) :
    ∃ t, t.link = none ∧ t.generator = s.generator ∧ w'.Suspended (Conveys P m₀ ids) t ∧
      ∀ id ∈ ids, w.KeepsHandles w' id := by
  have hm := hm₀.later hlater
  have hlt : s.generator < w.generators.size := w.lt_size_of_parked h.parked
  obtain ⟨size', k', scopes, captures, hf'⟩ := exists_suspended hm h.parked hback
  obtain ⟨size, k, hf, hconveys⟩ := h.fiber
  simp only [Conveys, hlink] at hconveys
  obtain ⟨K, hk, hK⟩ := hconveys
  obtain ⟨hkept, hfeeds⟩ := (hK k hk).2 _ _ _ _ _ _ _ _ hlater hf hback
  refine ⟨⟨s.generator, [], none, scopes, captures⟩, rfl, rfl,
    ⟨⟨size', k', ?_, K, hfeeds _ _ _ _ hf', hK⟩, ?_⟩, hkept⟩
  · simpa [Stage.scopes] using hf'
  · exact (plain_of_later hm (.of_leads hback.leads) hlt).2.trans h.callback

/-- A pull that comes back with a value leaves the stages a pipeline, and the handles as they are. -/
theorem exists_pulled (hm₀ : Reachable P m₀)
    (hlater : Later P m₀ ⟨w, .task (.resume s.generator sent), fs⟩)
    (h : w.Pipeline (Conveys P m₀ ids) (s :: rest)) (hids : ∀ t ∈ rest, t.generator ∈ ids)
    (hback : Within P fs ⟨w, .task (.resume s.generator sent), fs⟩
      ⟨w', .answer (.progress (.ok (.yielded v))), fs⟩) :
    ∃ stages, Renews (s :: rest) stages ∧ w'.Pipeline (Conveys P m₀ ids) stages ∧
      ∀ id ∈ ids, w.KeepsHandles w' id := by
  induction rest generalizing s w w' fs sent v with
  | nil =>
    have hlink : s.link = none := by cases h.linked; assumption
    obtain ⟨t, ht, hgenerator, hsuspended, hkept⟩ :=
      exists_fed hm₀ hlater (h.suspended s (.head _)) hlink hback
    refine ⟨[t], .last hlink ht hgenerator, ⟨fun u hu => ?_, .last ht, List.nodup_singleton _⟩, hkept⟩
    exact List.mem_singleton.mp hu ▸ hsuspended
  | cons t rest ih =>
    have hm := hm₀.later hlater
    have hsuspended := h.suspended s (.head _)
    have hlt := w.lt_size_of_parked hsuspended.parked
    obtain ⟨size, k, hf, hrelays⟩ := hsuspended.fiber
    obtain ⟨scope, hlink, howns, hlast⟩ := h.exists_link
    simp only [Conveys, hlink] at hrelays
    obtain ⟨w₁, frames, hto, hrelayed⟩ :=
      hrelays.exists_relayed hm hf hlink howns (hlast ▸ Nat.one_pos)
    have hm₁ := hm.leads hto.leads
    -- the rest of the pipeline is pulled on, and stays one
    obtain ⟨w₂, v₁, hinner⟩ := hrelayed.yields w' v (hto.before_answer hback)
    obtain ⟨stages, hrenews, hpipeline, hkept⟩ := ih (hlater.trans (.of_leads hto.leads))
      (hrelayed.pipeline h) (fun u hu => hids u (.tail _ hu)) hinner
    obtain ⟨t', rest', rfl⟩ := hrenews.exists_first
    have hgenerators := hrenews.generators
    have ht' : t'.generator = t.generator := (List.cons.inj hgenerators).1
    -- the first producer comes back with the same value
    obtain ⟨w₃, size', k', hgot, hk', hf', hstack, hothers, hself⟩ :=
      hrelayed.value w₂ v₁ (hm₁.leads hinner.leads) (hkept _ (hids t (.head _)))
    obtain ⟨rfl, -⟩ := hback.unique (hto.trans ((hinner.of_suffix hrelayed.below).trans hgot))
    refine ⟨s :: t' :: rest', .cons s hrenews, ⟨fun u hu => ?_, ?_, ?_⟩, fun id hid => ?_⟩
    · rcases List.mem_cons.mp hu with rfl | hu
      · refine ⟨⟨size', k', hf', ?_⟩, ?_⟩
        · simpa only [Conveys, hlink] using hk'
        · exact (plain_of_later hm (.of_leads hback.leads) hlt).2.trans hsuspended.callback
      · obtain ⟨u', hu', heq⟩ := hrenews.exists_mem hu
        exact (hpipeline.suspended u hu).kept (hstack _ (heq ▸ h.ne_of_mem hu'))
    · refine .next hlink (ht' ▸ hself.owns howns) (by rw [ht', hself.count, hlast]) ?_
      exact hpipeline.linked.kept fun u hu => hothers _ (ht' ▸ hpipeline.ne_of_mem hu)
    · rw [List.map_cons, hgenerators]
      exact h.distinct
    · by_cases hidt : id = t.generator
      · exact hidt ▸ hself
      · exact (hrelayed.handles id hidt).trans ((hkept id hid).trans (hothers id hidt))

/-! ### Pipelines over a source -/

/-- The producer of the stage, suspended with `k`, hands on what it gets from the next stage; that of the
last stage yields whenever it is resumed. -/
def Sourced (P : Program C) (s : Stage C) (k : Except Exception (Option Value) → C) : Prop :=
  match s.link with
  | some _ => Relays P s k
  | none => Springs P k

theorem Sourced.conveys (h : Sourced P s k) (hm₀ : Reachable P m₀) (ids : List GeneratorId) :
    Conveys P m₀ ids s k := by
  unfold Sourced at h
  unfold Conveys
  split
  next hlink =>
    simp only [hlink] at h
    exact h
  next hlink =>
    simp only [hlink] at h
    exact h.feeds hm₀ ids s.generator

/-- A pull on a pipeline over a source comes back with a value. -/
theorem exists_yielded (hm : Reachable P ⟨w, .task (.resume s.generator sent), fs⟩)
    (h : w.Pipeline (Sourced P) (s :: rest)) :
    ∃ w' v, Within P fs ⟨w, .task (.resume s.generator sent), fs⟩
      ⟨w', .answer (.progress (.ok (.yielded v))), fs⟩ := by
  obtain ⟨size, k, hf, hsourced⟩ := (h.suspended s (.head _)).fiber
  induction rest generalizing s w fs sent size k with
  | nil =>
    have hlink : s.link = none := by cases h.linked; assumption
    simp only [Sourced, hlink] at hsourced
    obtain ⟨K, hk, hK⟩ := hsourced
    obtain ⟨v, hoffers⟩ := (hK k hk).2 sent
    obtain ⟨w', -, -, hback, -⟩ := exists_sprung hm hf hoffers
    exact ⟨w', v, hback⟩
  | cons t rest ih =>
    obtain ⟨scope, hlink, howns, hlast⟩ := h.exists_link
    simp only [Sourced, hlink] at hsourced
    obtain ⟨w₁, frames, hto, hrelayed⟩ :=
      hsourced.exists_relayed hm hf hlink howns (hlast ▸ Nat.one_pos)
    have hm₁ := hm.leads hto.leads
    have hrest := hrelayed.pipeline h
    obtain ⟨size', k', hf', hsourced'⟩ := (hrest.suspended t (.head _)).fiber
    obtain ⟨w₂, v, hinner⟩ := ih hm₁ hrest size' k' hf' hsourced'
    obtain ⟨-, -, -, hkept⟩ := exists_pulled hm₁ .refl
      (hrest.imp fun _ _ _ hk => hk.conveys hm₁ ((t :: rest).map Stage.generator))
      (fun u hu => List.mem_map_of_mem (.tail _ hu)) hinner
    obtain ⟨w₃, -, -, hgot, -⟩ := hrelayed.value w₂ v (hm₁.leads hinner.leads)
      (hkept _ (List.mem_map_of_mem (.head _)))
    exact ⟨w₃, v, hto.trans ((hinner.of_suffix hrelayed.below).trans hgot)⟩

/-! ### Any number of pulls -/

/-- Control is outside a producer that is suspended. -/
theorem running_of_parked {δ : GeneratorId → Prop} (h : Sound δ m)
    (hparked : (m.world.generator g).Parked) : (m.world.generator g).running = false := by
  cases hphase : m.control.phase? g with
  | none => exact ((h.rest hphase).idle_of_parked hparked).1.running
  | some phase =>
    obtain ⟨w, control, frames⟩ := m
    obtain ⟨t, rfl, ht⟩ := Control.task_of_phase? hphase
    have hat := h.shape g
    by_cases hwaking : phase = .waking
    · subst hwaking
      cases t with
      | wake k _ =>
        cases ht
        obtain ⟨-, hinside, -⟩ := At.waking_iff.mp hat
        exact absurd hparked hinside.entered.not_parked
      | _ => cases ht
    · obtain ⟨-, -, hshape⟩ := hat.phase ht hwaking
      cases phase with
      | starting => exact hshape.1.running
      | waking => exact absurd rfl hwaking
      | _ => exact hshape.2.1

/-- Pulls on the first stage that come back with a value lead from `m` to another state, and in between
no operation is done on the stages, and the handles that they own stay as they are. -/
inductive Pulls (P : Program C) (s : Stage C) (rest : List (Stage C)) (m : Machine C) :
    Machine C → Prop
  | refl : Pulls P s rest m m
  | elsewhere {m₁ m' : Machine C} : Pulls P s rest m m₁ →
      (∀ t ∈ s :: rest, Between P t.generator m₁ m') →
      (∀ t ∈ rest, m₁.world.KeepsHandles m'.world t.generator) → Pulls P s rest m m'
  | pull {w w' : World C} {fs : List (Frame C)} {sent : Option Value} {v : Value} :
      Pulls P s rest m ⟨w, .task (.resume s.generator sent), fs⟩ →
      Within P fs ⟨w, .task (.resume s.generator sent), fs⟩
        ⟨w', .answer (.progress (.ok (.yielded v))), fs⟩ →
      Pulls P s rest m ⟨w', .answer (.progress (.ok (.yielded v))), fs⟩

/-- The stages make up a pipeline, and from `m` on their producers hand on what they get. -/
def Flows (P : Program C) (m : Machine C) (s : Stage C) (rest : List (Stage C)) : Prop :=
  m.world.Pipeline (Conveys P m (rest.map Stage.generator)) (s :: rest)

theorem Pulls.later (h : Pulls P s rest m m') : Later P m m' := by
  induction h with
  | refl => exact .refl
  | elsewhere _ hbetween _ ih => exact ih.trans (hbetween s (.head _)).later
  | pull _ hback ih => exact ih.trans (.of_leads hback.leads)

theorem Flows.conducts (h : Flows P m s rest) : Conducts P m.world (s :: rest) :=
  h.imp fun _ _ _ hk => hk.letsOut

/-- A producer that is suspended stays as it is while no operation is done on its generator. -/
theorem keepsStack_of_between (hm : Reachable P m) (hparked : (m.world.generator g).Parked)
    (h : Between P g m m') : m.world.KeepsStack m'.world g := by
  obtain ⟨-, hbare⟩ := bare_of_between hm (m.world.lt_size_of_parked hparked)
    (running_of_parked hm.sound hparked) h
  have hfiber := congrArg Generator.fiber hbare
  have hplain := congrArg Generator.plain hbare
  exact ⟨hfiber, hplain⟩

/-- After any number of pulls the generators make up a pipeline. -/
theorem Flows.exists_renewed (hm : Reachable P m) (h : Flows P m s rest) (hpulls : Pulls P s rest m m') :
    ∃ s' rest', Renews (s :: rest) (s' :: rest') ∧
      m'.world.Pipeline (Conveys P m (rest.map Stage.generator)) (s' :: rest') := by
  induction hpulls with
  | refl => exact ⟨s, rest, .refl h.linked, h⟩
  | @elsewhere m₁ m' hpulls hbetween hhandles ih =>
    obtain ⟨s', rest', hrenews, hpipeline⟩ := ih
    have hm₁ := hm.later hpulls.later
    refine ⟨s', rest', hrenews, hpipeline.kept (fun t ht => ?_) fun t ht => ?_⟩
    · obtain ⟨u, hu, heq⟩ := hrenews.exists_mem ht
      exact keepsStack_of_between hm₁ (hpipeline.suspended t ht).parked (heq ▸ hbetween u hu)
    · obtain ⟨u, hu, heq⟩ : ∃ u ∈ rest, u.generator = t.generator :=
        List.mem_map.mp ((List.cons.inj hrenews.generators).2 ▸ List.mem_map_of_mem ht)
      exact heq ▸ hhandles u hu
  | @pull w w' fs sent v hpulls hback ih =>
    obtain ⟨s', rest', hrenews, hpipeline⟩ := ih
    obtain ⟨hfirst, hrest⟩ := List.cons.inj hrenews.generators
    rw [← hfirst] at hback
    obtain ⟨stages, hrenews', hpipeline', -⟩ := exists_pulled hm (hfirst ▸ hpulls.later) hpipeline
      (fun t ht => hrest ▸ List.mem_map_of_mem ht) hback
    obtain ⟨s'', rest'', rfl⟩ := hrenews'.exists_first
    exact ⟨s'', rest'', hrenews.trans hrenews', hpipeline'⟩

/-- What becomes of a pipeline from the state `m` on. -/
structure Drains (P : Program C) (s : Stage C) (rest : List (Stage C)) (m : Machine C) : Prop where
  /-- As it stands it comes to its end. -/
  ends : Gentle P m (s :: rest) → Cascades P s rest m
  /-- If its producers hand on what they get, the generators make up a pipeline after any number of pulls,
  and that comes to its end. -/
  pulled : Flows P m s rest → ∀ m', Pulls P s rest m m' →
    ∃ s' rest', Renews (s :: rest) (s' :: rest') ∧ Conducts P m'.world (s' :: rest') ∧
      (Gentle P m' (s' :: rest') → Cascades P s' rest' m')

/-- Over every run pipelines of any length come to their ends, however often they are pulled on. -/
theorem drains_of_run {ms : List (Machine C)} (h : Run P (m :: ms))
    (hpipeline : Conducts P m.world (s :: rest)) : Drains P s rest m where
  ends hgentle := cascades_of_run h hpipeline hgentle
  pulled hflows m' hpulls := by
    obtain ⟨s', rest', hrenews, hpipeline'⟩ := hflows.exists_renewed h.reachable hpulls
    have hconducts : Conducts P m'.world (s' :: rest') := hpipeline'.imp fun _ _ _ hk => hk.letsOut
    obtain ⟨ms', hrun, -⟩ := h.later hpulls.later
    exact ⟨s', rest', hrenews, hconducts, fun hgentle => cascades_of_run hrun hconducts hgentle⟩

/-- The code of two producers: one makes the other, pulls on it and yields what it gets. -/
inductive Piping
  | make
  | pull
  | item (v : Value)
  | source
  | ended (e : Exception)
  | over

def piping : Program Piping where
  next
    | .make => .holdGenerator "i" ⟨"inner", minStackSize, some [], [], [], none, .source⟩ .pull
    | .pull => .call (.resume "i" none) false fun
      | .yielded v => .item v
      | _ => .over
    | .item v => .yield v fun
      | .ok _ => .pull
      | .error e => .ended e
    | .source => .yield .null fun
      | .ok _ => .source
      | .error e => .ended e
    | .ended e => .finish (.error e)
    | .over => .finish (.ok .null)

theorem letsOut_of_piping {k : Except Exception (Option Value) → Piping}
    (hk : ∀ e, k (.error e) = .ended e) : LetsOut piping k :=
  fun e => hk e ▸ .finish rfl

theorem relays_of_piping {s : Stage Piping} {k : Except Exception (Option Value) → Piping}
    (hlink : s.link = some (.generator "i")) (hok : ∀ v, k (.ok v) = .pull)
    (herror : ∀ e, k (.error e) = .ended e) : Relays piping s k := by
  refine ⟨fun k => (∀ v, k (.ok v) = .pull) ∧ ∀ e, k (.error e) = .ended e, ⟨hok, herror⟩, ?_⟩
  rintro k ⟨hok, herror⟩
  refine ⟨letsOut_of_piping herror, fun sent => ?_⟩
  rw [hok sent]
  refine .named hlink (.now rfl) (fun v => ?_) fun r hr => ?_
  · have hyields : piping.next (.item v) = .yield v _ := rfl
    exact ⟨_, .now hyields, fun _ => rfl, fun _ => rfl⟩
  · cases r with
    | yielded v => exact absurd rfl (hr v)
    | _ => exact ⟨_, .finish rfl⟩

theorem springs_of_piping {k : Except Exception (Option Value) → Piping}
    (hok : ∀ v, k (.ok v) = .source) (herror : ∀ e, k (.error e) = .ended e) : Springs piping k := by
  refine ⟨fun k => (∀ v, k (.ok v) = .source) ∧ ∀ e, k (.error e) = .ended e, ⟨hok, herror⟩, ?_⟩
  rintro k ⟨hok, herror⟩
  refine ⟨letsOut_of_piping herror, fun sent => ⟨.null, ?_⟩⟩
  rw [hok sent]
  have hyields : piping.next .source = .yield .null _ := rfl
  exact ⟨_, .now hyields, fun _ => rfl, fun _ => rfl⟩

def outlet : Stage Piping := ⟨0, [], some (.generator "i"), [], []⟩

def inlet : Stage Piping := ⟨1, [], none, [], []⟩

/-- After a first pull the two generators make up a pipeline when the next operation is begun. -/
theorem exists_piped {step : Step Piping} {t : Task Piping}
    (hbegun : step = .resume "g" none ∧ t = .resume 0 none ∨ step = .close "g" ∧ t = .close 0) :
    ∃ w fs, Reachable piping ⟨w, .task t, fs⟩ ∧ w.Pipeline (Sourced piping) [outlet, inlet] ∧
      Gentle piping ⟨w, .task t, fs⟩ [outlet, inlet] := by
  have hcreate : Reachable piping
      ⟨{ stackMemory := minStackSize },
        .task (.step (.create "g" ⟨"outer", minStackSize, some [], [], [], none, .make⟩)), []⟩ :=
    .start _ _
  have hfirst := (hcreate.leads (leads_run piping 2 _)).again (.resume "g" none)
    ⟨rfl, .inl ⟨_, rfl⟩⟩
  have hsecond := (hfirst.leads (leads_run piping 24 _)).again step ⟨rfl, .inl ⟨_, rfl⟩⟩
  have hboth {p : Stage Piping → Prop} (houter : p outlet) (hinner : p inlet) :
      ∀ s ∈ [outlet, inlet], p s := by
    intro s hs
    rcases List.mem_pair.mp hs with rfl | rfl
    · exact houter
    · exact hinner
  rcases hbegun with ⟨rfl, rfl⟩ | ⟨rfl, rfl⟩
  all_goals
    refine ⟨_, _, hsecond.move, ⟨hboth ⟨⟨_, _, rfl, ?relays⟩, rfl⟩ ⟨⟨_, _, rfl, ?springs⟩, rfl⟩,
      .next rfl (.named rfl) rfl (.last rfl), by decide⟩, gentle_of_bare hsecond.move
      (hboth nofun nofun) (hboth nofun nofun) (hboth rfl rfl)⟩
    case relays => exact relays_of_piping rfl (fun _ => rfl) fun _ => rfl
    case springs => exact springs_of_piping (fun _ => rfl) fun _ => rfl

/-- The first generator is pulled on for a second time, or it is closed. -/
theorem drains_of_piping :
    (∃ m m', m.control = .task (.resume outlet.generator none) ∧
      Conducts piping m.world [outlet, inlet] ∧ Drains piping outlet [inlet] m ∧
      Flows piping m outlet [inlet] ∧ Pulls piping outlet [inlet] m m' ∧
      ∃ v, m'.control = .answer (.progress (.ok (.yielded v)))) ∧
    ∃ m, m.control = .task (.close outlet.generator) ∧ Conducts piping m.world [outlet, inlet] ∧
      Drains piping outlet [inlet] m ∧ Gentle piping m [outlet, inlet] := by
  constructor
  · obtain ⟨w, fs, hm, hpipeline, -⟩ := exists_piped (.inl ⟨rfl, rfl⟩)
    obtain ⟨ms, hrun⟩ := reachable_iff_run.mp hm
    have hflows : Flows piping ⟨w, .task (.resume 0 none), fs⟩ outlet [inlet] :=
      hpipeline.imp fun _ _ _ hk => hk.conveys hm _
    obtain ⟨w', v, hback⟩ := exists_yielded (s := outlet) hm hpipeline
    exact ⟨_, _, rfl, hflows.conducts, drains_of_run hrun hflows.conducts, hflows,
      .pull .refl hback, v, rfl⟩
  · obtain ⟨w, fs, hm, hpipeline, hgentle⟩ := exists_piped (.inr ⟨rfl, rfl⟩)
    obtain ⟨ms, hrun⟩ := reachable_iff_run.mp hm
    have hconducts : Conducts piping w [outlet, inlet] :=
      hpipeline.imp fun _ _ _ hk => (hk.conveys hm []).letsOut
    exact ⟨⟨w, _, fs⟩, rfl, hconducts, drains_of_run hrun hconducts, hgentle⟩

end Machine

end Coroutine
