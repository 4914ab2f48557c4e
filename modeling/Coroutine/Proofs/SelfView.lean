import Coroutine.Proofs.Dropping
import Coroutine.Proofs.Omission

/-! A producer's view of its own generator. Main statement: wherever code of a producer looks at its
generator it sees it running, unless the last handle is being dropped, and then it sees nothing any more.
A view that is released is never the last handle, and sessions go on as if producers had not looked at
themselves. -/

namespace Coroutine

variable {C : Type}

/-! ### Views -/

namespace View

/-- What the producer of `g` gets from a view. -/
def answer (w : World C) (g : GeneratorId) (v : View) : Reply :=
  let x := w.generator g
  if x.handles = 0 then .gone
  else
    match v with
    | .info => .selfInfo ⟨x.name, .running, true⟩
    | .is name => .isSelf ((w.handles.find? name).bind fun h =>
        if (w.generator h).plain = x.plain then some (h == g) else none)
    | _ => .failed ⟨.reentrancy x.name, 0, []⟩

/-- The world that a view leaves: nothing has changed but that an exception has been made if one was to
be thrown, and that the producer has been answered. -/
def leaves (w : World C) (g : GeneratorId) (v : View) : World C :=
  (if (w.generator g).handles = 0 then w else v.prepare w).note (.viewed (v.answer w g))

/-- Whether no exception is made for a view. -/
def Bare : View → Prop
  | throw _ => False
  | _ => True

theorem Bare.leaves {v : View} (h : v.Bare) (w : World C) (g : GeneratorId) :
    v.leaves w g = w.note (.viewed (v.answer w g)) := by
  cases v with
  | throw => exact h.elim
  | _ => simp [View.leaves, prepare]

end View

/-! ### Programs -/

/-- In the second program code uses views of its own generator, any number of them and each as it likes
after what the last one answered, and then does what it does in the first one. -/
inductive LooksFirst (P P' : Program C) : C → Prop
  | acts {c : C} : P'.next c = P.next c → LooksFirst P P' c
  | looks {c : C} {v : View} {k : Reply → C} : v.Bare → P'.next c = .view v k →
      (∀ r, P.next (k r) = P.next c) → (∀ r, LooksFirst P P' (k r)) → LooksFirst P P' c

/-- The second program is the first one with views added. -/
def AddsViews (P P' : Program C) : Prop := ∀ c, LooksFirst P P' c

theorem AddsViews.refl (P : Program C) : AddsViews P P := fun _ => .acts rfl

/-- The second history is the first one with answers to views added. -/
inductive AddsViewed : List Event → List Event → Prop
  | nil : AddsViewed [] []
  | kept {h h' : List Event} (e : Event) : AddsViewed h h' → AddsViewed (e :: h) (e :: h')
  | added {h h' : List Event} (r : Reply) : AddsViewed h h' → AddsViewed h (.viewed r :: h')

theorem AddsViewed.append {h h' : List Event} (hadds : AddsViewed h h') (es : List Event) :
    AddsViewed (es ++ h) (es ++ h') := by
  induction es with
  | nil => exact hadds
  | cons e es ih => exact .kept e ih

namespace Machine

variable {P P' : Program C} {g : GeneratorId} {w : World C} {c : C} {k : Reply → C} {v : View}
  {fs : List (Frame C)} {m m' n : Machine C} {stackMemory : Nat} {ss : List (Step C)}

/-- A session that makes these steps, the latest first, has come to this state. -/
inductive Played (P : Program C) (stackMemory : Nat) : List (Step C) → Machine C → Prop
  | start (s : Step C) : Played P stackMemory [s] ⟨{ stackMemory }, .task (.step s), []⟩
  | move {ss : List (Step C)} {m : Machine C} :
      Played P stackMemory ss m → Played P stackMemory ss (m.next P)
  | again {ss : List (Step C)} {m : Machine C} (s : Step C) : Played P stackMemory ss m →
      m.Completed → Played P stackMemory (s :: ss) ⟨m.world, .task (.step s), []⟩

theorem Played.reachable (h : Played P stackMemory ss m) : Reachable P m := by
  induction h with
  | start s => exact .start _ s
  | move _ ih => exact ih.move
  | again s _ hcompleted ih => exact ih.again s hcompleted

theorem Played.leads (h : Played P stackMemory ss m) (hm : Leads P m m') :
    Played P stackMemory ss m' := by
  induction hm with
  | refl => exact h
  | move _ ih => exact ih h.move

theorem Completed.eq_of_leads (h : m.Completed) (hm : Leads P m m') : m' = m := by
  induction hm with
  | refl => rfl
  | move _ ih =>
    rw [h.next_eq] at ih
    exact ih h

theorem Resembles.completed (hlike : Resembles m n) (h : n.Completed) : m.Completed := by
  obtain ⟨hframes, hcontrol⟩ := h
  rw [hlike.frames] at hframes
  rw [hlike.control] at hcontrol
  exact ⟨hframes, hcontrol⟩

/-! ### A view -/

theorem inside_of_producer (h : producer? fs = some g) : .inside g ∈ marks fs := by
  obtain ⟨scopes, captures, rest, rfl⟩ := producer?_eq_some_iff.mp h
  simp

theorem mem_of_dropped (h : .dropped g ∈ marks fs) : .dropping g ∈ fs := by
  obtain ⟨f, hf, hmark⟩ := List.mem_filterMap.mp h
  cases f with
  | dropping k =>
    cases hmark
    exact hf
  | _ => cases hmark

theorem dropped_of_mem (h : .dropping g ∈ fs) : .dropped g ∈ marks fs :=
  List.mem_filterMap.mpr ⟨_, h, rfl⟩

/-- The producer that the running code belongs to has begun and is not over. -/
theorem inside_of_code (h : Reachable P ⟨w, .code c, fs⟩) (hproducer : producer? fs = some g) :
    (w.generator g).Inside ∧ g < w.generators.size := by
  have hinside := ((h.sound.rest rfl).inside (inside_of_producer hproducer)).1
  exact ⟨hinside, w.lt_size_of_running hinside.running⟩

/-- A view is answered, and is released then. -/
theorem leads_useView (h : Reachable P ⟨w, .code c, fs⟩) (hP : P.next c = .view v k)
    (hproducer : producer? fs = some g) :
    Leads P (next P ⟨w, .code c, fs⟩) ⟨v.leaves w g, .code (k (v.answer w g)), fs⟩ := by
  obtain ⟨hinside, hlt⟩ := inside_of_code h hproducer
  have hnext : next P ⟨w, .code c, fs⟩ = useView w fs g v k := by
    simp [next, hP, grant, hproducer]
  rw [hnext]
  by_cases hgone : (w.generator g).handles = 0
  · simp only [useView, View.leaves, View.answer, hgone, if_pos]
    exact .refl _
  · have hpos : 0 < (w.generator g).handles := Nat.pos_of_ne_zero hgone
    obtain ⟨hrun, hname⟩ := running_retain hinside.running hlt
    cases v with
    | resume sent =>
      have hresume (fs : List (Frame C)) := resume_of_running fs hrun sent
      rw [hname] at hresume
      simp only [useView, View.leaves, View.answer, View.prepare, hgone, if_false]
      exact leads_view hpos hresume .progress
    | throw e =>
      obtain ⟨hrun, hname⟩ := running_retain (w := (w.make e).2) hinside.running hlt
      have hthrow (fs : List (Frame C)) := throwInto_of_running fs hrun (w.make e).1
      rw [hname] at hthrow
      simp only [useView, View.leaves, View.answer, View.prepare, hgone, if_false]
      exact leads_view hpos hthrow .progress
    | close =>
      have hclose (fs : List (Frame C)) := close_of_running fs hrun
      rw [hname] at hclose
      simp only [useView, View.leaves, View.answer, View.prepare, hgone, if_false]
      exact leads_view hpos hclose .closed
    | info =>
      have hstatus := hinside.started.status
      have hrunning := hinside.running
      simp only [useView, View.leaves, View.answer, View.prepare, hgone, Generator.info, hstatus,
        hrunning]
      exact .refl _
    | is name =>
      simp only [useView, View.leaves, View.answer, View.prepare, hgone]
      cases w.handles.find? name <;> exact .refl _

/-- A handle that a producer releases of its own generator is not the last one. -/
theorem dropHandle_of_producer (h : Reachable P ⟨w, .task (.dropHandle g), fs⟩)
    (hin : .inside g ∈ marks fs) :
    1 < (w.generator g).handles ∧ next P ⟨w, .task (.dropHandle g), fs⟩ =
      ⟨w.modify g fun x => { x with handles := x.handles - 1 }, .answer .unit, fs⟩ := by
  have hmore := handles_of_inside h.sound hin
  have hlt : g < w.generators.size := w.lt_size_of_handles (Nat.zero_lt_of_lt hmore)
  have hlast : (w.generator g).handles - 1 ≠ 0 := by omega
  exact ⟨hmore, dropHandle_shared fs (absurd · hlast) hlt⟩

theorem unheld_of_later (h : Reachable P m) (hm : Later P m m')
    (hg : g < m.world.generators.size) (hnone : (m.world.generator g).handles = 0) :
    g < m'.world.generators.size ∧ (m'.world.generator g).handles = 0 := by
  induction hm with
  | refl => exact ⟨hg, hnone⟩
  | move hm ih =>
    exact ⟨Nat.lt_of_lt_of_le ih.1 (size_le_next _), unheld_next P (h.later hm).sound ih.1 ih.2⟩
  | again s _ _ ih => exact ih

/-! ### Two programs -/

/-- What the first program does next the second one does after it has looked at itself. -/
theorem exists_next (hadds : AddsViews P P') (h : Reachable P' n) (hlike : Resembles m n)
    (hhistory : AddsViewed m.world.history n.world.history) :
    ∃ n', Leads P' (n.next P') n' ∧ Resembles (m.next P) n' ∧
      AddsViewed (m.next P).world.history n'.world.history := by
  -- where both do the same, they go on alike
  have hsame {a b : Machine C} (hnext : m.next P = a.next P') (hlike : Resembles a b)
      (hhistory : AddsViewed a.world.history b.world.history) :
      ∃ n', Leads P' (b.next P') n' ∧ Resembles (m.next P) n' ∧
        AddsViewed (m.next P).world.history n'.world.history := by
    refine ⟨_, .refl _, hnext ▸ hlike.next, ?_⟩
    rw [hnext, history_next_eq, history_next_eq, hlike.happens]
    exact hhistory.append _
  obtain ⟨w, control, fs⟩ := m
  cases control with
  | code c₀ =>
    obtain ⟨w', control, fs'⟩ := n
    obtain ⟨hworld, hcontrol, hframes⟩ := hlike
    obtain rfl : control = _ := hcontrol
    obtain rfl : fs' = _ := hframes
    -- the views that come first
    suffices hlooks : ∀ c, LooksFirst P P' c → P.next c = P.next c₀ → ∀ w' : World C,
        Reachable P' ⟨w', .code c, fs'⟩ → w.Resembles w' → AddsViewed w.history w'.history →
        ∃ n', Leads P' (next P' ⟨w', .code c, fs'⟩) n' ∧
          Resembles (next P ⟨w, .code c₀, fs'⟩) n' ∧
          AddsViewed (next P ⟨w, .code c₀, fs'⟩).world.history n'.world.history from
      hlooks c₀ (hadds c₀) rfl w' h hworld hhistory
    intro c hc
    induction hc with
    | @acts c hacts =>
      intro hrequest w' _ hworld hhistory
      refine hsame (a := ⟨w, .code c, fs'⟩) ?_ ⟨hworld, rfl, rfl⟩ hhistory
      simp only [next, hacts, hrequest]
    | @looks c v k hv hlook hthen _ ih =>
      intro hrequest w' hreachable hworld hhistory
      have hview : ∃ w'' r, Leads P' (next P' ⟨w', .code c, fs'⟩) ⟨w'', .code (k r), fs'⟩ ∧
          w.Resembles w'' ∧ AddsViewed w.history w''.history := by
        cases hproducer : producer? fs' with
        | none =>
          refine ⟨w', .gone, ?_, hworld, hhistory⟩
          simp only [next, hlook, grant, hproducer]
          exact .refl _
        | some g =>
          have hleads := leads_useView hreachable hlook hproducer
          rw [hv.leaves] at hleads
          exact ⟨_, _, hleads, hworld, hhistory.added _⟩
      obtain ⟨w'', r, hleads, hworld, hhistory⟩ := hview
      obtain ⟨n', hleads', hlike, hhistory⟩ := ih r ((hthen r).trans hrequest) w''
        ((hreachable.move).leads hleads) hworld hhistory
      exact ⟨n', hleads.trans (.move hleads'), hlike, hhistory⟩
  | _ => exact hsame rfl hlike hhistory

/-- Sessions with a second program go on as sessions with a first one, but that their histories may have
answers to views added. -/
structure Unnoticed (P P' : Program C) (stackMemory : Nat) (ss : List (Step C)) : Prop where
  /-- The sessions with the second program get wherever those with the first one get. -/
  reached : ∀ m, Played P stackMemory ss m → ∃ n, Played P' stackMemory ss n ∧ Resembles m n ∧
    AddsViewed m.world.history n.world.history
  /-- They get nowhere else, but to views that are left again. -/
  onward : ∀ n, Played P' stackMemory ss n → ∃ m n', Played P stackMemory ss m ∧ Leads P' n n' ∧
    Resembles m n' ∧ AddsViewed m.world.history n'.world.history
  /-- What comes of a step is the same. -/
  completed : ∀ n, Played P' stackMemory ss n → n.Completed → ∃ m, Played P stackMemory ss m ∧
    m.Completed ∧ Resembles m n ∧ AddsViewed m.world.history n.world.history

theorem exists_played (hadds : AddsViews P P') (h : Played P stackMemory ss m) :
    ∃ n, Played P' stackMemory ss n ∧ Resembles m n ∧
      AddsViewed m.world.history n.world.history := by
  induction h with
  | start s => exact ⟨_, .start s, .refl _, .nil⟩
  | move _ ih =>
    obtain ⟨n, hn, hlike, hhistory⟩ := ih
    obtain ⟨n', hleads, hlike, hhistory⟩ := exists_next hadds hn.reachable hlike hhistory
    exact ⟨n', hn.leads (.move hleads), hlike, hhistory⟩
  | again s _ hcompleted ih =>
    obtain ⟨n, hn, hlike, hhistory⟩ := ih
    have hdone : n.Completed := by
      obtain ⟨hframes, hcontrol⟩ := hcompleted
      rw [← hlike.frames] at hframes
      rw [← hlike.control] at hcontrol
      exact ⟨hframes, hcontrol⟩
    exact ⟨_, hn.again s hdone, ⟨hlike.world, rfl, rfl⟩, hhistory⟩

theorem exists_without (hadds : AddsViews P P') (h : Played P' stackMemory ss n) :
    ∃ m n', Played P stackMemory ss m ∧ Leads P' n n' ∧ Resembles m n' ∧
      AddsViewed m.world.history n'.world.history := by
  induction h with
  | start s => exact ⟨_, _, .start s, .refl _, .refl _, .nil⟩
  | move hn ih =>
    obtain ⟨m, n', hm, hleads, hlike, hhistory⟩ := ih
    cases hleads with
    | refl =>
      obtain ⟨n', hleads, hlike, hhistory⟩ := exists_next hadds hn.reachable hlike hhistory
      exact ⟨_, n', hm.move, hleads, hlike, hhistory⟩
    | move hleads => exact ⟨m, n', hm, hleads, hlike, hhistory⟩
  | again s hn hcompleted ih =>
    obtain ⟨m, n', hm, hleads, hlike, hhistory⟩ := ih
    obtain rfl := hcompleted.eq_of_leads hleads
    exact ⟨_, _, hm.again s (hlike.completed hcompleted), .refl _, ⟨hlike.world, rfl, rfl⟩, hhistory⟩

theorem unnoticed_of_addsViews (hadds : AddsViews P P') (stackMemory : Nat) (ss : List (Step C)) :
    Unnoticed P P' stackMemory ss where
  reached _ hm := exists_played hadds hm
  onward _ hn := exists_without hadds hn
  completed n hn hcompleted := by
    obtain ⟨m, n', hm, hleads, hlike, hhistory⟩ := exists_without hadds hn
    obtain rfl := hcompleted.eq_of_leads hleads
    exact ⟨m, hm, hlike.completed hcompleted, hlike, hhistory⟩

/-- What holds of the views that producers have of themselves. -/
structure SelfView (P : Program C) (m : Machine C) : Prop where
  /-- Wherever code of a producer runs, its generator is running. -/
  running : ∀ g c, m.control = .code c → producer? m.frames = some g →
    (m.world.generator g).status = .running ∧ (m.world.generator g).running = true
  /-- It has no handle exactly if the producer runs because the last one is being dropped. -/
  unheld_iff : ∀ g c, m.control = .code c → producer? m.frames = some g →
    ((m.world.generator g).handles = 0 ↔ .dropping g ∈ m.frames)
  /-- The producer gets its answer, and that is all. -/
  answered : ∀ g c v k, m.control = .code c → P.next c = .view v k → producer? m.frames = some g →
    Leads P (m.next P) ⟨v.leaves m.world g, .code (k (v.answer m.world g)), m.frames⟩
  /-- A producer without a handle to its generator never sees it again. -/
  lasting : ∀ g, g < m.world.generators.size → (m.world.generator g).handles = 0 →
    ∀ m', Later P m m' → ∀ v : View, v.answer m'.world g = .gone
  /-- What a producer releases of its own generator, a view for instance, is not the last handle. -/
  released : ∀ g f fs, m.control = .task (.dropHandle g) → m.frames = f :: fs →
    producer? fs = some g → 1 < (m.world.generator g).handles ∧ m.next P =
      ⟨m.world.modify g fun x => { x with handles := x.handles - 1 }, .answer .unit, m.frames⟩

theorem selfView_of_reachable (h : Reachable P m) : SelfView P m := by
  obtain ⟨w, control, fs⟩ := m
  constructor
  case running =>
    rintro g c rfl hproducer
    obtain ⟨hinside, -⟩ := inside_of_code h hproducer
    exact ⟨hinside.started.status, hinside.running⟩
  case unheld_iff =>
    rintro g c rfl hproducer
    obtain ⟨hinside, hlt⟩ := inside_of_code h hproducer
    constructor
    · intro hnone
      rcases h.sound.unheld g hlt hnone with hfinished | hdropped | habandon
      · exact nomatch hinside.started.status.symm.trans hfinished
      · exact mem_of_dropped hdropped
      · cases habandon
    · exact fun hdropping => (h.sound.dropped g (dropped_of_mem hdropping)).2
  case answered =>
    rintro g c v k rfl hP hproducer
    exact leads_useView h hP hproducer
  case lasting =>
    intro g hlt hnone m' hm v
    exact if_pos (unheld_of_later h hm hlt hnone).2
  case released =>
    rintro g f fs' rfl hframes hproducer
    obtain rfl : fs = _ := hframes
    refine dropHandle_of_producer h ?_
    rw [marks_cons]
    exact List.mem_append_right _ (inside_of_producer hproducer)

/-- In every session a producer sees its own generator as it is, and looking makes no difference. -/
theorem selfView_of_played (hadds : AddsViews P P') (h : Played P' stackMemory ss n) :
    SelfView P' n ∧ Unnoticed P P' stackMemory ss :=
  ⟨selfView_of_reachable h.reachable, unnoticed_of_addsViews hadds stackMemory ss⟩

/-- The code of a producer that yields for ever, whatever the number that it goes on with. -/
def blind : Program Nat := ⟨fun _ => .yield .null fun _ => 2⟩

/-- The same, but before it yields the producer looks at its generator as often as the number says, and
the last time it tries to close it. When the generator is gone it looks no more. -/
def curious : Program Nat :=
  ⟨fun
    | 0 => .yield .null fun _ => 2
    | 1 => .view .close fun _ => 0
    | n + 2 => .view .info fun
      | .gone => 0
      | _ => n + 1⟩

theorem addsViews_curious : AddsViews blind curious := by
  have hacts : LooksFirst blind curious 0 := .acts rfl
  intro c
  induction c with
  | zero => exact hacts
  | succ n ih =>
    cases n with
    | zero => exact .looks (v := .close) trivial rfl (fun _ => rfl) fun _ => ih
    | succ n =>
      refine .looks (v := .info) trivial rfl (fun _ => rfl) fun r => ?_
      cases r with
      | gone => exact hacts
      | _ => exact ih

/-- The producer sees its generator when it is resumed, and no more when its last handle is dropped. -/
theorem selfView_of_curious : ∃ (m m' : Machine Nat) (ss ss' : List (Step Nat)),
    (SelfView curious m ∧ Unnoticed blind curious minStackSize ss) ∧
      (SelfView curious m' ∧ Unnoticed blind curious minStackSize ss') ∧
      m.control = .code 2 ∧ producer? m.frames = some 0 ∧ (m.world.generator 0).handles = 2 ∧
      m'.control = .code 2 ∧ producer? m'.frames = some 0 ∧ (m'.world.generator 0).handles = 0 := by
  have hcreate : Played curious minStackSize _ ⟨{ stackMemory := minStackSize },
      .task (.step (.create "g" ⟨"g", minStackSize, none, [], [], none, 2⟩)), []⟩ := .start _
  have hresume := (hcreate.leads (leads_run curious 2 _)).again (.resume "g" none)
    ⟨rfl, .inl ⟨_, rfl⟩⟩
  have hyielded := hresume.leads (leads_run curious 17 _)
  have hdrop := hyielded.again (.drop "g") ⟨rfl, .inl ⟨_, rfl⟩⟩
  exact ⟨_, _, _, _, selfView_of_played addsViews_curious (hresume.leads (leads_run curious 4 _)),
    selfView_of_played addsViews_curious (hdrop.leads (leads_run curious 5 _)),
    rfl, rfl, rfl, rfl, rfl, rfl⟩

end Machine

end Coroutine
