import Coroutine.Proofs.Discharge

/-! The course of a close. The exit signal gets to where the producer is suspended; what the producer
ends with then is what the close comes back with, once the generator is finalized. Main statement: a
producer that yields instead while frames are unwound is given up, and the close succeeds. -/

namespace Coroutine

variable {C : Type}

/-- What a close comes back with whose producer has come to this end. -/
def closeResult : Except Exception Value → Except OpError Unit
  | .ok _ => .ok ()
  | .error e => if e.isExit then .ok () else .error (.raised e)

/-- What is logged when the producer of a generator called `name` is over. -/
def termination (g : GeneratorId) (name : String) : Event :=
  .logged (.transition g name .running .terminated .finished .finalize)

namespace Machine

variable {P : Program C} {δ : GeneratorId → Prop} {g : GeneratorId} {w w' : World C}
  {fs : List (Frame C)} {m m' : Machine C} {size : Nat} {e : Exception}
  {k : Except Exception (Option Value) → C} {scopes : List (Scope C)}
  {captures : List (HeldGuard C)}

/-- A producer that is suspended when its generator is closed gets the exit signal. -/
theorem next_of_close (h : Sound δ ⟨w, .task (.close g), fs⟩)
    (hf : (w.generator g).fiber = some ⟨size, .suspended k scopes captures⟩) :
    ∃ w₁, next P ⟨w, .task (.close g), fs⟩ = ⟨w₁, .task (.drive g), .closing g :: fs⟩ ∧
      w.Becomes g { w.generator g with error := some w.exitSignal } w₁ := by
  have hrest : Rest (Coroutine.marks fs) g (w.generator g) := h.rest rfl
  obtain ⟨hidle, hs⟩ := hrest.idle_of_parked ⟨size, k, scopes, captures, hf⟩
  have hlt : g < w.generators.size := w.lt_size_of_status (by rw [hs]; nofun)
  exact close_running fs hidle.running hs hidle.slots.error hlt

/-- The drop of a last handle closes the generator first, -/
theorem next_of_last (fs : List (Frame C)) (hlast : (w.generator g).handles = 1)
    (hs : (w.generator g).status ≠ .finished) :
    ∃ w₁, next P ⟨w, .task (.dropHandle g), fs⟩ = ⟨w₁, .task (.close g), .dropping g :: fs⟩ ∧
      w.Becomes g { w.generator g with handles := 0 } w₁ := by
  have hlt := w.lt_size_of_status hs
  have hzero : (w.generator g).handles - 1 = 0 := by omega
  let dropped (x : Generator C) : Generator C := { x with handles := x.handles - 1 }
  have hb : w.Becomes g (dropped (w.generator g)) (w.modify g dropped) :=
    World.Becomes.modify (.refl g w) (.inl hlt)
  simp only [dropped, hzero] at hb
  exact ⟨_, dropHandle_last fs hzero hs hlt, hb⟩

/-- and comes back after the close if the generator has ended. -/
theorem within_dropped (fs : List (Frame C)) (r : Except OpError Unit)
    (hs : (w.generator g).status = .finished) :
    ∃ w', Within P fs ⟨w, .answer (.closed r), .dropping g :: fs⟩ ⟨w', .answer .unit, fs⟩ := by
  have hne : Frame.dropping g :: fs ≠ fs := List.cons_ne_self _ _
  cases r with
  | ok =>
    exact ⟨w, .move (List.suffix_cons _ fs) (fun _ _ => hne)
      (.of_task (List.suffix_refl fs) (abandon_of_finished fs hs) (.refl _))⟩
  | error e =>
    exact ⟨_, .move (List.suffix_cons _ fs) (fun _ _ => hne)
      (.of_task (List.suffix_refl fs) (abandon_of_finished fs hs) (.refl _))⟩

/-- An exception that was handed in is raised where the producer is suspended. -/
theorem within_raised (fs : List (Frame C))
    (hf : (w.generator g).fiber = some ⟨size, .suspended k scopes captures⟩)
    (herror : (w.generator g).error = some e) :
    ∃ w', Within P fs ⟨w, .task (.drive g), fs⟩
        ⟨w', .code (k (.error e)), stackFiber scopes captures (.driving g :: fs)⟩ ∧
      w.Becomes g { w.generator g with
        running := true, fiber := some ⟨size, .active⟩, error := none } w' ∧
      w'.handles = w.handles := by
  have hlt : g < w.generators.size := w.lt_size_of_parked ⟨size, k, scopes, captures, hf⟩
  have hnames₁ : (drive w fs g).world.handles = w.handles :=
    handles_perform (t := .drive g) (.inl rfl)
  obtain ⟨w₁, hdrive, hb₁⟩ := drive_suspended fs hf hlt
  generalize hfs : stackFiber scopes captures (.driving g :: fs) = fs' at hdrive
  have hnames₂ : (wake w₁ fs' g k).world.handles = w₁.handles :=
    handles_perform (t := .wake g k) (.inl rfl)
  obtain ⟨w₂, hwake, hb₂⟩ := wake_error (w := w₁) (g := g) (e := e) fs' k
    (by rw [hb₁.self]; exact herror) (hb₁.size ▸ hlt)
  rw [hdrive] at hnames₁
  rw [hwake] at hnames₂
  rw [hb₁.self] at hb₂
  have hwakes : Within P fs ⟨w₁, .task (.wake g k), fs'⟩ ⟨w₂, .code (k (.error e)), fs'⟩ :=
    .of_task (hfs ▸ suffix_under_stackFiber ..) hwake (.refl _)
  exact ⟨w₂, .of_task (List.suffix_refl fs) hdrive hwakes, hb₁.trans hb₂, hnames₂.trans hnames₁⟩

theorem history_terminated (hs : (w.generator g).status = .running) :
    (terminated w fs g).world.history =
      termination g (w.generator g).name :: w.history := by
  simp [terminated, World.apply, hs, transition, task, World.log, termination]

/-- A producer that is over is finalized: its payload is released next. -/
theorem within_end {r : Except Exception Value}
    (hm : Reachable P ⟨w, .answer (.outcome r), .driving g :: fs⟩) :
    ∃ w', Within P fs ⟨w, .answer (.outcome r), .driving g :: fs⟩ ⟨w', .task (.releasePayload g),
        .keeping (.progress (Reaction.ends r : Reaction C).result) :: fs⟩ ∧
      w.Becomes g { w.generator g with
        status := .finished, running := false, payloadHeld := false, fiber := none } w' ∧
      w.Tells w' [termination g (w.generator g).name] := by
  have hrest : Rest (Coroutine.marks (.driving g :: fs)) g (w.generator g) := hm.sound.rest rfl
  obtain ⟨hinside, hslots⟩ := hrest.inside (by simp)
  obtain ⟨size, hf⟩ := hinside.entered
  have hlt : g < w.generators.size := w.lt_size_of_started hinside.started
  obtain ⟨w₁, hend, hb₁⟩ := endProducer_eq (r := r) fs hlt hslots.outcome
  have hs₁ : (w₁.generator g).status = .running := by
    rw [hb₁.self]
    exact hinside.started.status
  have hreport : (terminated w₁ fs g).world.history = _ := history_terminated hs₁
  obtain ⟨w₂, hterminated, hb₂⟩ := terminated_running fs hs₁ (hb₁.size ▸ hlt)
  have hresult : resultOf (w₁.generator g) = (Reaction.ends r : Reaction C).result := by
    rw [hb₁.self]
    cases r <;> rfl
  have hname : (w₁.generator g).name = (w.generator g).name := by rw [hb₁.self]
  rw [hterminated, hname] at hreport
  rw [hresult] at hterminated
  rw [hb₁.self] at hb₂
  generalize hfs' : Frame.keeping (.progress (Reaction.ends r : Reaction C).result) :: fs = fs'
    at hterminated
  have hkeeping : fs <:+ fs' := hfs' ▸ List.suffix_cons _ fs
  obtain ⟨w₃, hfinalize, hb₃⟩ := finalize_over (w := w₂) (g := g) fs'
    ⟨size, by rw [hb₂.self, hf]; rfl⟩ (hb₂.size ▸ hb₁.size ▸ hlt)
  rw [hb₂.self] at hb₃
  have hentry := releaseEntry_none (w := w₃) (g := g) fs'
    (by rw [hb₃.self]; exact hinside.started.entry)
  have hempty : ({ w.generator g with
      status := .finished, running := false, payloadHeld := false, outcome := none,
      fiber := none } : Generator C) = { w.generator g with
        status := .finished, running := false, payloadHeld := false, fiber := none } := by
    rw [← hslots.outcome]
  have hended : Within P fs ⟨w, .answer (.outcome r), .driving g :: fs⟩
      ⟨w₁, .task (.terminated g), fs⟩ := by
    refine .move (List.suffix_cons _ fs) (fun _ _ => List.cons_ne_self _ _) ?_
    show Within P fs (endProducer w fs g r) _
    rw [hend]
    exact .refl _
  have hover : Within P fs ⟨w₂, .task (.finalize g), fs'⟩ ⟨w₃, .task (.releasePayload g), fs'⟩ :=
    .of_task hkeeping hfinalize (.of_task hkeeping hentry (.refl _))
  have hreported : Within P fs ⟨w, .answer (.outcome r), .driving g :: fs⟩
      ⟨w₂, .task (.finalize g), fs'⟩ :=
    hended.trans (.of_task (List.suffix_refl fs) hterminated (.refl _))
  refine ⟨w₃, hreported.trans hover, ?_, ?_⟩
  · rw [← hempty]
    exact (hb₁.trans hb₂).trans hb₃
  · have htold : w₁.Tells w₂ [termination g (w.generator g).name] := World.tells_cons hreport
    exact (htold.earlier (history_of_leads hm hended.leads)).later
      (history_of_leads (hm.leads hreported.leads) hover.leads)

/-- The close comes back when the cleanup does. -/
theorem within_closed {r : Except Exception Value} {a : Answer} :
    Within P fs ⟨w, .answer a,
        .keeping (.progress (Reaction.ends r : Reaction C).result) :: .closing g :: fs⟩
      ⟨w, .answer (.closed (closeResult r)), fs⟩ := by
  have hsuffix {f : Frame C} : fs <:+ f :: .closing g :: fs := ⟨[_, _], rfl⟩
  have hne {f : Frame C} : f :: .closing g :: fs ≠ fs := by
    intro heq
    have hlength := congrArg List.length heq
    simp only [List.length_cons] at hlength
    omega
  refine .move hsuffix (fun _ _ => hne)
    (.move (List.suffix_cons _ fs) (fun _ _ => List.cons_ne_self _ _) ?_)
  cases r <;> exact .refl _

/-- The course of a close that a producer answers with a yield while frames are unwound. -/
structure Forsakes (P : Program C) (g : GeneratorId) (v : Value) (fs : List (Frame C))
    (fiber : Fiber C) (m m₁ m₂ m₃ : Machine C) : Prop where
  /-- The close gets the yielded value, -/
  yields : ∃ w₁, m₁ = ⟨w₁, .answer (.progress (.ok (.yielded v))), .closing g :: fs⟩
  defies : Within P fs m m₁
  /-- the generator is finalized with the stack that it yielded on, -/
  finalizes : ∃ w₂, m₂ = ⟨w₂, .task (.finalize g), .violating g :: fs⟩ ∧
    (w₂.generator g).fiber = some fiber
  abandons : Within P fs m₁ m₂
  /-- and the close succeeds. -/
  closes : ∃ w₃, m₃ = ⟨w₃, .answer (.closed (.ok ())), fs⟩ ∧ (w₃.generator g).status = .finished ∧
    ∀ h, h ≠ g → w₃.generator h = m.world.generator h
  succeeds : Within P fs m₂ m₃

/-- A producer that yields in answer to a close while frames are unwound is given up. -/
theorem exists_forsakes {c : C} {v : Value}
    (h : Sound δ ⟨w, .code c, stackFiber scopes captures (.driving g :: .closing g :: fs)⟩)
    (hP : P.next c = .yield v k) (hpanicking : panicking fs = true) :
    ∃ size m₁ m₂ m₃, Forsakes P g v fs ⟨size, .suspended k scopes captures⟩
      ⟨w, .code c, stackFiber scopes captures (.driving g :: .closing g :: fs)⟩ m₁ m₂ m₃ := by
  have hrest : Rest (Coroutine.marks (stackFiber scopes captures (.driving g :: .closing g :: fs))) g
    (w.generator g) := h.rest rfl
  obtain ⟨hinside, hslots⟩ := hrest.inside (by simp)
  have hs := hinside.started.status
  have hlt : g < w.generators.size := w.lt_size_of_started hinside.started
  have hclosing : fs <:+ .closing g :: fs := List.suffix_cons _ fs
  have hviolating : fs <:+ .violating g :: fs := List.suffix_cons _ fs
  obtain ⟨w₁, size, hyield, hb₁⟩ :=
    yield_driving (.closing g :: fs) scopes captures v k hinside.entered hslots hlt
  obtain ⟨w₂, hsuspended, hb₂⟩ := suspended_running (w := w₁) (g := g) (v := v) (.closing g :: fs)
    (by rw [hb₁.self]; exact hs) (by rw [hb₁.self]) (hb₁.size ▸ hlt)
  have hb := hb₁.trans hb₂
  rw [hb₁.self] at hb
  have hb := hb.log (.ignoredExit g (w₂.generator g).name)
  generalize hw₃ : w₂.log (.ignoredExit g (w₂.generator g).name) = w₃ at hb
  obtain ⟨w₄, habandon, hb₄⟩ := abandon_of_not_finished (w := w₃) (g := g) (.violating g :: fs)
    (by rw [hb.self]; simp [hs]) (hb.size ▸ hlt)
  rw [hb.self] at hb₄
  have hb := hb.trans hb₄
  have hf : (w₄.generator g).fiber = some ⟨size, .suspended k scopes captures⟩ := by rw [hb.self]
  have hunwinding : panicking (.violating g :: fs) = true := hpanicking
  obtain ⟨w₅, hfinalize, hb₅⟩ := finalize_panicking (w := w₄) (g := g)
    ⟨size, k, scopes, captures, hf⟩ hunwinding (hb.size ▸ hlt)
  rw [hb.self] at hb₅
  have hb' := hb.trans hb₅
  have hentry := releaseEntry_none (w := w₅) (g := g) (.violating g :: fs)
    (by rw [hb'.self]; exact hinside.started.entry)
  obtain ⟨w₆, hpayload, hb₆⟩ : ∃ w₆,
      releasePayload w₅ (.violating g :: fs) g = answer w₆ (.violating g :: fs) .unit ∧
        w₅.Becomes g { (w₅.generator g).emptySlots with cleanup := none } w₆ := by
    have hheld : (w₅.generator g).payloadHeld = true := by rw [hb'.self]; exact hinside.payloadHeld
    have hreleases := releases_releasePayload w₅ (.violating g :: fs) g
    generalize releasePayload w₅ (.violating g :: fs) g = m' at hreleases
    cases hreleases with
    | nothing hcleanup =>
      have hsome : (w₅.generator g).cleanup.isSome := by rw [hb'.self]; exact hinside.started.cleanup
      simp [hcleanup] at hsome
    | lost _ _ hb₆ => exact ⟨_, rfl, hb₆⟩
    | discarded _ hfree | paid _ hfree => cases hheld.symm.trans hfree
  rw [hb'.self] at hb₆
  have hb' := hb'.trans hb₆
  refine ⟨size, _, _, _, ⟨w₂, rfl⟩, ?_, ⟨w₄, rfl, hf⟩, ?_,
    ⟨w₆, rfl, by rw [hb'.self]; rfl, hb'.other⟩, ?_⟩
  · refine .move (hclosing.trans (suffix_under_stackFiber ..)) nofun ?_
    have hnext : next P ⟨w, .code c, stackFiber scopes captures (.driving g :: .closing g :: fs)⟩ =
        ⟨w₁, .task (.suspended g), .closing g :: fs⟩ := by
      simpa [next, hP, grant, task] using hyield
    rw [hnext]
    exact .of_task hclosing hsuspended (.refl _)
  · refine .move hclosing (fun _ _ => List.cons_ne_self _ _) ?_
    show Within P fs ⟨w₂.log (.ignoredExit g (w₂.generator g).name), .task (.abandon g), _⟩ _
    rw [hw₃]
    exact .of_task hviolating habandon (.refl _)
  · refine .of_task hviolating hfinalize (.of_task hviolating hentry (.of_task hviolating hpayload ?_))
    refine .move hviolating (fun _ _ => List.cons_ne_self _ _) ?_
    show Within P fs (if panicking fs then closed w₆ fs (.ok ()) else _) _
    rw [if_pos hpanicking]
    exact .refl _

end Machine

end Coroutine
