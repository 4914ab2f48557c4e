import Coroutine.Proofs.Invariant
import Coroutine.Proofs.Traceback

/-! Operations on a generator whose producer control is inside of, from however deep. Main
statement: in every reachable state the generators that count as running are those on the chain of
switches, and an operation on one of them is turned away and leaves no trace in it. -/

namespace Coroutine

variable {C : Type} {δ : GeneratorId → Prop}

/-- The name of the generator that a step asks to run. -/
def Step.runs? : Step C → Option String
  | .resume g _ | .throw g _ | .close g => some g
  | _ => none

/-- Whether a view asks its generator to run. -/
def View.Runs : View → Prop
  | .resume _ | .throw _ | .close => True
  | _ => False

/-- No generator and no traceback is changed. -/
structure World.Spares (w w' : World C) : Prop where
  generators : w'.generators = w.generators
  tracebacks : w'.ledger.traceback = w.ledger.traceback

/-- No generator and no traceback is changed, but that a handle of `g` is gone. -/
structure World.SparesBut (g : GeneratorId) (w w' : World C) : Prop where
  size : w'.generators.size = w.generators.size
  self : w'.generator g = { w.generator g with handles := (w.generator g).handles - 1 }
  other : ∀ k, k ≠ g → w'.generator k = w.generator k
  tracebacks : w'.ledger.traceback = w.ledger.traceback

namespace World

variable {w : World C} {g : GeneratorId}

/-- A handle that is added and dropped again changes nothing. -/
theorem release_retain (w : World C) (g : GeneratorId) :
    (w.retain g).modify g (fun x => { x with handles := x.handles - 1 }) = w := by
  have hgen : (w.generators.modify g fun x => { x with handles := x.handles + 1 }).modify g
      (fun x => { x with handles := x.handles - 1 }) = w.generators := by
    refine Array.ext (by simp) fun i hi hi' => ?_
    simp only [Array.getElem_modify]
    split <;> rfl
  simp only [retain, modify, hgen]

theorem Spares.refl (w : World C) : w.Spares w := ⟨rfl, rfl⟩

theorem spares_make (w : World C) (e : ExceptionSpec) : w.Spares (w.make e).2 :=
  ⟨rfl, Ledger.traceback_make w.ledger e⟩

end World

/-- The answer of an operation that a running generator turned away. -/
inductive Answer.Rejects (name : String) : Answer → Prop
  | progress : Rejects name (.progress (.error (.reentrancy name)))
  | closed : Rejects name (.closed (.error (.reentrancy name)))

namespace Machine

variable {P : Program C} {w : World C} {fs : List (Frame C)} {g : GeneratorId}

/-- A handle that an operation held is dropped, and others are left. -/
theorem leads_dropHandle {a : Answer} (hpos : 0 < (w.generator g).handles) :
    Leads P ⟨w.retain g, .task (.dropHandle g), .keeping a :: fs⟩ ⟨w, .answer a, fs⟩ := by
  refine .step (b := ⟨w, .answer .unit, .keeping a :: fs⟩) ?_ (.single _)
  show dropHandle (w.retain g) (.keeping a :: fs) g = _
  have h0 : (w.generator g).handles ≠ 0 := Nat.ne_of_gt hpos
  simp [dropHandle, World.release_retain, h0, answer]

theorem leads_operate {name : String} {t : GeneratorId → Task C} {a : Answer}
    (hfind : w.handles.find? name = some g) (hpos : 0 < (w.generator g).handles)
    (ht : ∀ fs, perform (w.retain g) fs (t g) = answer (w.retain g) fs a)
    (ha : a.Rejects (w.generator g).name) :
    Leads P (operate w fs name t)
      ⟨w, .answer (.reply (.failed ⟨.reentrancy (w.generator g).name, 0, []⟩)), fs⟩ := by
  have hoperate : operate w fs name t =
      ⟨w.retain g, .task (t g), .reporting :: .holding g :: fs⟩ := by
    simp [operate, hfind, task]
  rw [hoperate]
  refine .step (ht _) ?_
  refine .step (b := reply (w.retain g) (.holding g :: fs)
    (.failed ⟨.reentrancy (w.generator g).name, 0, []⟩)) ?_ ?_
  · cases ha <;> rfl
  · exact .step rfl (leads_dropHandle hpos)

theorem running_retain (hrun : (w.generator g).running = true) (hlt : g < w.generators.size) :
    ((w.retain g).generator g).running = true ∧
      ((w.retain g).generator g).name = (w.generator g).name := by
  rw [World.retain, World.generator_modify_self hlt]
  exact ⟨hrun, rfl⟩

/-- A step that asks a running generator to run is turned away. -/
theorem step_of_running {name : String} {s : Step C} (hs : s.runs? = some name)
    (hfind : w.handles.find? name = some g) (hrun : (w.generator g).running = true)
    (hpos : 0 < (w.generator g).handles) :
    ∃ w', Leads P ⟨w, .task (.step s), fs⟩
      ⟨w', .answer (.reply (.failed ⟨.reentrancy (w.generator g).name, 0, []⟩)), fs⟩ ∧
      w.Spares w' := by
  have hlt : g < w.generators.size := w.lt_size_of_handles hpos
  obtain ⟨hrun', hname⟩ := running_retain hrun hlt
  cases s with
  | resume _ sent =>
    obtain rfl := Option.some.inj hs
    have hresume (fs : List (Frame C)) := resume_of_running fs hrun' sent
    rw [hname] at hresume
    exact ⟨w, .move (leads_operate hfind hpos hresume .progress), .refl w⟩
  | throw _ e =>
    obtain rfl := Option.some.inj hs
    -- the exception is made first
    obtain ⟨hrun', hname⟩ := running_retain (w := (w.make e).2) hrun hlt
    have hthrow (fs : List (Frame C)) := throwInto_of_running fs hrun' (w.make e).1
    rw [hname] at hthrow
    refine ⟨(w.make e).2, .step (b := operate (w.make e).2 fs _ fun id => .throw id (w.make e).1)
      ?_ (leads_operate (w := (w.make e).2) hfind hpos hthrow .progress), w.spares_make e⟩
    simp [next, perform, makeStep, hfind]
  | close =>
    obtain rfl := Option.some.inj hs
    have hclose (fs : List (Frame C)) := close_of_running fs hrun'
    rw [hname] at hclose
    exact ⟨w, .move (leads_operate hfind hpos hclose .closed), .refl w⟩
  | _ => cases hs

/-- The operation that a view asked for comes back, and the view drops the handle that it held. -/
theorem leads_view {k : Reply → C} {t : Task C} {a : Answer} (hpos : 0 < (w.generator g).handles)
    (ht : ∀ fs, perform (w.retain g) fs t = answer (w.retain g) fs a)
    (ha : a.Rejects (w.generator g).name) :
    Leads P ⟨w.retain g, .task t, .viewing g k :: fs⟩
      ⟨w.note (.viewed (.failed ⟨.reentrancy (w.generator g).name, 0, []⟩)),
        .code (k (.failed ⟨.reentrancy (w.generator g).name, 0, []⟩)), fs⟩ := by
  let r : Reply := .failed ⟨.reentrancy (w.generator g).name, 0, []⟩
  let noted := w.note (.viewed r)
  have hnonzero : (w.generator g).handles ≠ 0 := Nat.ne_of_gt hpos
  refine .step (ht _) ?_
  refine .step (b := ⟨noted.retain g, .task (.dropHandle g), .resuming (k r) :: fs⟩) ?_ ?_
  · cases ha <;> rfl
  · refine .step (b := ⟨noted, .answer .unit, .resuming (k r) :: fs⟩) ?_ (.single _)
    simp [noted, next, perform, dropHandle, World.release_retain, hnonzero, answer]

/-- So is a view that asks its own generator to run. -/
theorem view_of_running {v : View} {c : C} {k : Reply → C} (hv : v.Runs)
    (hP : P.next c = .view v k) (hg : producer? fs = some g)
    (hrun : (w.generator g).running = true) (hpos : 0 < (w.generator g).handles) :
    ∃ w', Leads P ⟨w, .code c, fs⟩
        ⟨w', .code (k (.failed ⟨.reentrancy (w.generator g).name, 0, []⟩)), fs⟩ ∧ w.Spares w' ∧
      w'.history =
        .viewed (.failed ⟨.reentrancy (w.generator g).name, 0, []⟩) :: w.history := by
  have hlt : g < w.generators.size := w.lt_size_of_handles hpos
  have hnonzero : (w.generator g).handles ≠ 0 := Nat.ne_of_gt hpos
  obtain ⟨hrun', hname⟩ := running_retain hrun hlt
  cases v with
  | resume sent =>
    have hresume (fs : List (Frame C)) := resume_of_running fs hrun' sent
    rw [hname] at hresume
    refine ⟨_, .step ?_ (leads_view (t := .resume g sent) hpos hresume .progress), ⟨rfl, rfl⟩, rfl⟩
    simp [next, hP, grant, hg, useView, hnonzero, task]
  | throw e =>
    obtain ⟨hrun', hname⟩ := running_retain (w := (w.make e).2) hrun hlt
    have hthrow (fs : List (Frame C)) := throwInto_of_running fs hrun' (w.make e).1
    rw [hname] at hthrow
    refine ⟨_, .step ?_ (leads_view (w := (w.make e).2) (t := .throw g (w.make e).1) hpos hthrow
      .progress), ⟨rfl, (w.spares_make e).tracebacks⟩, rfl⟩
    simp [next, hP, grant, hg, useView, hnonzero, task]
  | close =>
    have hclose (fs : List (Frame C)) := close_of_running fs hrun'
    rw [hname] at hclose
    refine ⟨_, .step ?_ (leads_view (t := .close g) hpos hclose .closed), ⟨rfl, rfl⟩, rfl⟩
    simp [next, hP, grant, hg, useView, hnonzero, task]
  | _ => exact hv.elim

/-- A generator on the chain has ended, or it has a handle besides any that is held elsewhere. -/
theorem handles_of_mem_chain {m : Machine C} {F : Fates} {κ : Awaited} (h : Sound δ m)
    (hphase : m.control.phase? g = none) (hmarks : marks m.frames = marks fs)
    (hκ : Awaits F κ fs) (hg : g ∈ chain fs) (hheld : heldFrames g fs < m.held g) :
    0 < (m.world.generator g).handles ∧ ((m.world.generator g).handles - 1 = 0 →
      (m.world.generator g).status = .finished) := by
  have howned := h.owned g
  refine ⟨by omega, fun hlast => ?_⟩
  rcases mem_chain_iff.mp hg with hin | hun
  · rcases hκ.held_of_inside hin with hframes | hdropped
    · omega
    · have hnone := (h.dropped g (hmarks ▸ hdropped)).2
      omega
  · exact ((h.rest hphase).unwound (hmarks ▸ hun)).ended.status

theorem sparesBut_modify {w' : World C} (hlt : g < w.generators.size)
    (hw : w'.generators =
      (w.modify g fun x => { x with handles := x.handles - 1 }).generators)
    (ht : w'.ledger.traceback = w.ledger.traceback) : w.SparesBut g w' := by
  have hgen (k : GeneratorId) : w'.generator k =
      (w.modify g fun x => { x with handles := x.handles - 1 }).generator k := by
    simp only [World.generator, hw]
  refine ⟨by rw [hw]; exact w.size_modify g _, ?_, fun k hk => ?_, ht⟩
  · rw [hgen, World.generator_modify_self hlt]
  · rw [hgen, World.generator_modify_of_ne hk]

/-- An iterator that code has on its stack hands the rejection out once. -/
theorem pull_of_running {c : C} {k : Item OpError → C} (hP : P.next c = .pull k)
    (hrun : (w.generator g).running = true) (hlt : g < w.generators.size)
    (hlast : (w.generator g).handles - 1 = 0 → (w.generator g).status = .finished) :
    ∃ w', Leads P ⟨w, .code c, .scope (.iterator (some g)) :: fs⟩
      ⟨w', .code (k (.failed (.reentrancy (w.generator g).name))),
        .scope (.iterator none) :: fs⟩ ∧ w.SparesBut g w' := by
  refine ⟨w.modify g fun x => { x with handles := x.handles - 1 }, ?_, sparesBut_modify hlt rfl rfl⟩
  refine .step (b := ⟨w, .task (.resume g none), .pulling g k :: .scope (.iterator (some g)) :: fs⟩)
    (by simp [next, hP, grant, task]) ?_
  refine .step (resume_of_running _ hrun none) ?_
  refine .step (b := ⟨w, .task (.dropHandle g), .resuming (k (.failed (.reentrancy
    (w.generator g).name))) :: .scope (.iterator none) :: fs⟩) rfl ?_
  exact .step (dropHandle_shared _ hlast hlt) (.single _)

/-- So does a named iterator. -/
theorem pullNamed_of_running {it : String} {n : Nat}
    (hfind : w.iterators.find? it = some (some g)) (hrun : (w.generator g).running = true)
    (hlt : g < w.generators.size)
    (hlast : (w.generator g).handles - 1 = 0 → (w.generator g).status = .finished) :
    ∃ w', Leads P ⟨w, .task (.step (.pull it (n + 1))), fs⟩
      ⟨w', .answer (.reply (.items (.failed ⟨.reentrancy (w.generator g).name, 0, []⟩ ::
        List.replicate n .ended))), fs⟩ ∧
      w'.iterators.find? it = some none ∧ w.SparesBut g w' := by
  let erased : World C := { w with iterators := w.iterators.erase it }
  let dropped := erased.modify g fun x => { x with handles := x.handles - 1 }
  refine ⟨{ dropped with iterators := dropped.iterators.insert it none }, ?_, by simp,
    sparesBut_modify hlt rfl rfl⟩
  refine .step (b := ⟨erased, .task (.resume g none), .pullingNamed it g n [] :: fs⟩)
    (by simp [next, perform, makeStep, hfind, pullNamed, task, erased]) ?_
  refine .step (resume_of_running _ (w := erased) hrun none) ?_
  refine .step (b := ⟨erased, .task (.dropHandle g), .endingNamed it n []
    (.failed (.reentrancy (w.generator g).name)) :: fs⟩) rfl ?_
  refine .step (dropHandle_shared (w := erased) _ hlast hlt) ?_
  refine .step (b := pullNamed dropped fs it none n
    [.failed ⟨.reentrancy (w.generator g).name, 0, []⟩]) rfl ?_
  have hgone : dropped.iterators.find? it = none := by simp [dropped, erased, World.modify]
  have hpull : pullNamed dropped fs it none n
      [.failed ⟨.reentrancy (w.generator g).name, 0, []⟩] = nameIterator dropped fs it none
        (.reply (.items (.failed ⟨.reentrancy (w.generator g).name, 0, []⟩ ::
          List.replicate n .ended))) := by
    cases n <;> rfl
  rw [hpull, nameIterator, hgone]
  exact .refl _

/-- An iterator that has ended asks nobody. -/
theorem pullNamed_of_ended {it : String} {n : Nat} (hfind : w.iterators.find? it = some none) :
    ∃ w', Leads P ⟨w, .task (.step (.pull it n)), fs⟩
      ⟨w', .answer (.reply (.items (List.replicate n .ended))), fs⟩ ∧
      w'.iterators.find? it = some none ∧ w.Spares w' := by
  refine ⟨{ w with iterators := (w.iterators.erase it).insert it none }, ?_, by simp, rfl, rfl⟩
  refine .step ?_ (.refl _)
  have hpull : pullNamed { w with iterators := w.iterators.erase it } fs it none n [] =
      nameIterator { w with iterators := w.iterators.erase it } fs it none
        (.reply (.items (List.replicate n .ended))) := by
    cases n <;> rfl
  simp [next, perform, makeStep, hfind, hpull, nameIterator, answer]

/-- What holds of the generators whose producers control is inside of. -/
structure Reentrancy (P : Program C) (m : Machine C) : Prop where
  running_iff : ∀ g, (m.world.generator g).running = true ↔ g ∈ chain m.frames
  once : (chain m.frames).Nodup
  /-- Whoever asks, the operation comes back at once and nothing at all is changed. -/
  rejects : ∀ g, g ∈ chain m.frames →
    (∀ sent, m.control = .task (.resume g sent) → m.next P =
      ⟨m.world, .answer (.progress (.error (.reentrancy (m.world.generator g).name))),
        m.frames⟩) ∧
    (∀ e, m.control = .task (.throw g e) → m.next P =
      ⟨m.world, .answer (.progress (.error (.reentrancy (m.world.generator g).name))),
        m.frames⟩) ∧
    (m.control = .task (.close g) → m.next P =
      ⟨m.world, .answer (.closed (.error (.reentrancy (m.world.generator g).name))), m.frames⟩)
  /-- A step on a named handle. -/
  step : ∀ g name s, m.control = .task (.step s) → s.runs? = some name →
    m.world.handles.find? name = some g → g ∈ chain m.frames →
    ∃ w, Leads P m ⟨w, .answer (.reply (.failed
        ⟨.reentrancy (m.world.generator g).name, 0, []⟩)), m.frames⟩ ∧ m.world.Spares w
  /-- A producer's own view of its generator, as long as there is a handle. -/
  view : ∀ g c v k, m.control = .code c → P.next c = .view v k → v.Runs →
    producer? m.frames = some g → (m.world.generator g).handles ≠ 0 →
    ∃ w, Leads P m ⟨w, .code (k (.failed ⟨.reentrancy (m.world.generator g).name, 0, []⟩)),
        m.frames⟩ ∧ m.world.Spares w ∧
      w.history = .viewed (.failed ⟨.reentrancy (m.world.generator g).name, 0, []⟩) ::
        m.world.history
  /-- A named iterator reports the rejection once and has ended then. -/
  pullNamed : ∀ g it n, m.control = .task (.step (.pull it (n + 1))) →
    m.world.iterators.find? it = some (some g) → g ∈ chain m.frames →
    ∃ w, Leads P m ⟨w, .answer (.reply (.items
        (.failed ⟨.reentrancy (m.world.generator g).name, 0, []⟩ :: List.replicate n .ended))),
        m.frames⟩ ∧ w.iterators.find? it = some none ∧ m.world.SparesBut g w
  /-- So does an iterator on the stack of code. -/
  pull : ∀ g c k fs, m.control = .code c → P.next c = .pull k →
    m.frames = .scope (.iterator (some g)) :: fs → g ∈ chain m.frames →
    ∃ w, Leads P m ⟨w, .code (k (.failed (.reentrancy (m.world.generator g).name))),
        .scope (.iterator none) :: fs⟩ ∧ m.world.SparesBut g w
  /-- An iterator that has ended stays so. -/
  endedNamed : ∀ it n, m.control = .task (.step (.pull it n)) →
    m.world.iterators.find? it = some none →
    ∃ w, Leads P m ⟨w, .answer (.reply (.items (List.replicate n .ended))), m.frames⟩ ∧
      w.iterators.find? it = some none ∧ m.world.Spares w
  ended : ∀ c k fs, m.control = .code c → P.next c = .pull k →
    m.frames = .scope (.iterator none) :: fs → m.next P = ⟨m.world, .code (k .ended), m.frames⟩
  /-- When a session's step is over, control is inside no producer. -/
  completed : m.Completed → ∀ g, (m.world.generator g).running = false

theorem reentrancy_of_sound (P : Program C) {m : Machine C} (h : Sound δ m) : Reentrancy P m := by
  have hrunning := h.running_iff_mem_chain
  obtain ⟨w, control, fs⟩ := m
  obtain ⟨κ, hκ, hfits⟩ := h.order
  have hlt {g : GeneratorId} (hg : g ∈ chain fs) : g < w.generators.size :=
    w.lt_size_of_running ((hrunning g).mpr hg)
  constructor
  case running_iff => exact hrunning
  case once => exact hκ.chain_nodup
  case rejects =>
    intro g hg
    have hrun : (w.generator g).running = true := (hrunning g).mpr hg
    refine ⟨?_, ?_, ?_⟩
    · intro sent hc
      obtain rfl : control = _ := hc
      exact resume_of_running fs hrun sent
    · intro e hc
      obtain rfl : control = _ := hc
      exact throwInto_of_running fs hrun e
    · intro hc
      obtain rfl : control = _ := hc
      exact close_of_running fs hrun
  case step =>
    intro g name s hc hs hfind hg
    obtain rfl : control = _ := hc
    exact step_of_running hs hfind ((hrunning g).mpr hg) (h.pos_of_handle hfind)
  case view =>
    intro g c v k hc hP hv hproducer hpos
    obtain rfl : control = _ := hc
    have hg : g ∈ chain fs := by
      obtain ⟨scopes, captures, rest, hfs⟩ := producer?_eq_some_iff.mp hproducer
      have hfs : fs = stackFiber scopes captures (.driving g :: rest) := hfs
      simp [hfs]
    exact view_of_running hv hP hproducer ((hrunning g).mpr hg) (Nat.pos_of_ne_zero hpos)
  case pullNamed =>
    intro g it n hc hfind hg
    obtain rfl : control = _ := hc
    have hheld : heldFrames g fs < w.held g + 0 + heldFrames g fs := by
      have := w.held_erase_iterator (g := g) it
      simp only [show w.iterators.find? it = _ from hfind, Option.map_some, Option.getD_some,
        sourceHeld, handleTo_self] at this
      omega
    obtain ⟨-, hlast⟩ := handles_of_mem_chain h rfl rfl hκ hg hheld
    exact pullNamed_of_running hfind ((hrunning g).mpr hg) (hlt hg) hlast
  case pull =>
    intro g c k fs' hc hP hfs hg
    obtain rfl : control = _ := hc
    obtain rfl : fs = _ := hfs
    obtain rfl : κ = .code := hfits
    cases hκ with
    | scope hbelow =>
      have hheld : heldFrames g fs' < (⟨w, .code c, .scope (.iterator (some g)) :: fs'⟩ :
          Machine C).held g := by
        simp only [Machine.held, heldFrames_cons, Frame.held, Scope.held, sourceHeld,
          Option.map_some, Option.getD_some, handleTo_self]
        omega
      obtain ⟨-, hlast⟩ := handles_of_mem_chain h rfl (by simp) hbelow (by simpa using hg) hheld
      exact pull_of_running hP ((hrunning g).mpr hg) (hlt hg) hlast
  case endedNamed =>
    intro it n hc hfind
    obtain rfl : control = _ := hc
    exact pullNamed_of_ended hfind
  case ended =>
    intro c k fs' hc hP hfs
    obtain rfl : control = _ := hc
    obtain rfl : fs = _ := hfs
    simp [next, hP, grant, code]
  case completed =>
    intro hdone g
    obtain ⟨hfs, -⟩ := hdone
    obtain rfl : fs = [] := hfs
    have hout := mt (hrunning g).mp (by simp)
    simpa using hout

/-- In every reachable state control can be inside a producer only once. -/
theorem reentrancy_of_reachable {P : Program C} {m : Machine C} (h : Reachable P m) :
    Reentrancy P m :=
  reentrancy_of_sound P h.sound

/-- The code of a producer that resumes the generator called `g` again and again. -/
def insistent : Program Unit := ⟨fun _ => .call (.resume "g" none) false fun _ => ()⟩

/-- A producer that resumes its own generator is found on the chain when it does. -/
theorem reentrancy_of_insistent : ∃ m : Machine Unit, Reentrancy insistent m ∧
    m.control = .task (.step (.resume "g" none)) ∧ m.world.handles.find? "g" = some 0 ∧
      chain m.frames = [0] := by
  have hcreate : Reachable insistent
      ⟨{ stackMemory := minStackSize },
        .task (.step (.create "g" ⟨"g", minStackSize, none, [], [], none, ()⟩)), []⟩ := .start _ _
  have hresume := (hcreate.leads (leads_run insistent 2 _)).again (.resume "g" none)
    ⟨rfl, .inl ⟨_, rfl⟩⟩
  have hinside := hresume.leads (leads_run insistent 5 _)
  exact ⟨_, reentrancy_of_reachable hinside, rfl, rfl, rfl⟩

end Machine

end Coroutine
