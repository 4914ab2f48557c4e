import Coroutine.Proofs.Windup

/-! Pipelines on the runs of the machine. Main statement: over every run a pipeline that is closed, or
whose last handle is dropped, or into which an exception is thrown, comes to its end, and the cleanup of
each of its generators is called exactly once. -/

namespace Coroutine

variable {C : Type}

theorem Unwinds.exists_cleanup {stages : List (Stage C)} {es : List Event} (h : Unwinds stages es)
    {s : Stage C} (hs : s ∈ stages) :
    ∃ name payload, Event.cleanup s.generator name payload ∈ es := by
  induction h with
  | nil => cases hs
  | cons name payload _ ih =>
    rcases List.mem_cons.mp hs with rfl | hs
    · exact ⟨name, payload, by simp⟩
    · obtain ⟨name, payload, hmem⟩ := ih hs
      exact ⟨name, payload, by simp [hmem]⟩

namespace Machine

variable {P : Program C} {g : GeneratorId} {w w' : World C} {m m' : Machine C}
  {ms : List (Machine C)} {s : Stage C} {stages rest : List (Stage C)} {scope : Scope C}
  {guards : List (HeldGuard C)} {fs : List (Frame C)}
  {K : Stage C → (Except Exception (Option Value) → C) → Prop}

/-! ### Calls of cleanups -/

/-- A cleanup that has been called is not called again. -/
theorem cleanups_of_called (h : Run P (m :: ms)) (hg : g < m.world.generators.size)
    (hplain : (m.world.generator g).plain = false) (hcalled : m.world.cleanups g ≠ [])
    (hm' : Later P m m') : m'.world.cleanups g = [payloadOf P g ms] := by
  have hbalance := (accounted_of_run h).balance g hg hplain
  have hcleanups := m.world.cleanups_eq g
  have hcleanup : (m.world.generator g).account.cleanup = (m.world.generator g).cleanup := rfl
  suffices hone : m.world.cleanups g = [payloadOf P g ms] ∧ (m.world.generator g).cleanup = none by
    rw [cleanups_of_later h.reachable hm' hg hone.2, hone.1]
  generalize (m.world.generator g).account = a, m.world.settled g = es at *
  cases hbalance with
  | pending | lost => exact absurd hcleanups hcalled
  | paid name _ => exact ⟨by simpa [Event.payload?] using hcleanups, hcleanup.symm⟩

theorem cleanups_ne_nil (h : w.Gains w' (.cleanup g name payload)) : w'.cleanups g ≠ [] := by
  obtain ⟨events, hevents, hmem⟩ := h
  have hgot : payload ∈ w'.cleanups g :=
    List.mem_filterMap.mpr ⟨_, hevents ▸ List.mem_append_left _ hmem, by simp [Event.payload?]⟩
  exact List.ne_nil_of_mem hgot

/-- The stages come to their ends between the two states, and their cleanups are called once. -/
structure Wound (P : Program C) (m m' : Machine C) (stages : List (Stage C)) : Prop where
  ends : m.world.WindsUp m'.world stages
  pending : ∀ s ∈ stages, m.world.cleanups s.generator = []
  once : ∀ s ∈ stages, ∃ payload, ∀ m₁, Later P m' m₁ → m₁.world.cleanups s.generator = [payload]

theorem wound_of_windsUp (h : Run P (m :: ms)) (hpipeline : m.world.Pipeline K stages)
    (hphase : ∀ g, m.control.phase? g = none) (hm' : Leads P m m')
    (hends : m.world.WindsUp m'.world stages) : Wound P m m' stages where
  ends := hends
  pending s hs := by
    have hsuspended := hpipeline.suspended s hs
    obtain ⟨hidle, hstatus⟩ := (h.reachable.sound.rest (hphase _)).idle_of_parked hsuspended.parked
    obtain ⟨-, -, -, hnone⟩ := pending_of_run h (hidle.started hstatus).1.cleanup hsuspended.callback
    rw [World.cleanups_eq, hnone]
    rfl
  once s hs := by
    have hsuspended := hpipeline.suspended s hs
    have hlt := m.world.lt_size_of_parked hsuspended.parked
    obtain ⟨hlt', hplain⟩ := plain_of_later h.reachable (.of_leads hm') hlt
    obtain ⟨es, hes, htold⟩ := hends.told
    obtain ⟨name, payload, hmem⟩ := hes.exists_cleanup hs
    obtain ⟨ms', hrun, -⟩ := h.later (.of_leads hm')
    exact ⟨_, fun m₁ hlater => cleanups_of_called hrun hlt' (hplain.trans hsuspended.callback)
      (cleanups_ne_nil (htold.gains hmem)) hlater⟩

/-! ### Releases without logic -/

/-- Guards without release logic are released one after another. -/
theorem within_release (hguards : ∀ held ∈ guards, held.guard.onDrop = []) :
    ∃ w', Within P fs ⟨w, .task (.release guards), fs⟩ ⟨w', .answer .unit, fs⟩ ∧
      w'.generators = w.generators ∧ w'.handles = w.handles := by
  induction guards generalizing w with
  | nil => exact ⟨w, .of_task (List.suffix_refl fs) rfl (.refl _), rfl, rfl⟩
  | cons held guards ih =>
    obtain ⟨w', hrest, hgenerators, hhandles⟩ :=
      ih (w := w.note held.release) (fun other hother => hguards other (.tail _ hother))
    refine ⟨w', .of_task (List.suffix_refl fs) ?_ hrest, hgenerators, hhandles⟩
    simp only [perform, release, hguards held (.head _), releaseStep]
    rfl

/-- The scope holds a guard without release logic. -/
def Bare (scope : Scope C) : Prop := ∃ held, scope = .guard held ∧ held.guard.onDrop = []

/-- Whatever is released is released without a panic if guards have no release logic and cleanups make no
steps. -/
theorem gentle_of_bare (hm : Reachable P m)
    (hscopes : ∀ s ∈ stages, ∀ scope ∈ s.above ++ s.below, Bare scope)
    (hcaptures : ∀ s ∈ stages, ∀ held ∈ s.captures, held.guard.onDrop = [])
    (hcleanups : ∀ s ∈ stages, (m.world.generator s.generator).cleanup = some (.callback [] none)) :
    Gentle P m stages := by
  have hscope {scope : Scope C} (hbare : Bare scope) (w : World C) :
      Returns P m (.releaseScope scope)
        (fun w' => w'.generators = w.generators ∧ w'.handles = w.handles) w := by
    obtain ⟨held, rfl, hlogic⟩ := hbare
    intro fs _
    obtain ⟨w', hback, hsame⟩ : ∃ w', Within P fs ⟨w, .task (.release [held]), fs⟩
        ⟨w', .answer .unit, fs⟩ ∧ w'.generators = w.generators ∧ w'.handles = w.handles := by
      refine within_release fun other hother => ?_
      rw [List.mem_singleton.mp hother]
      exact hlogic
    exact ⟨w', .of_task (List.suffix_refl fs) rfl hback, hsame⟩
  constructor
  case above =>
    intro s hs scope hmem w
    refine (hscope (hscopes s hs scope (List.mem_append_left _ hmem)) w).imp ?_
    rintro fs w' - - ⟨hgenerators, hhandles⟩ t - -
    have hsame : w'.generator t.generator = w.generator t.generator := by
      rw [World.generator, World.generator, hgenerators]
    exact ⟨⟨congrArg Generator.fiber hsame, congrArg Generator.plain hsame⟩,
      congrArg Generator.handles hsame, fun name hname => hhandles ▸ hname⟩
  case below =>
    intro s hs scope hmem w
    exact (hscope (hscopes s hs scope (List.mem_append_right _ hmem)) w).imp fun _ _ _ _ _ => trivial
  case captures =>
    intro s hs w fs _
    obtain ⟨w', hback, -⟩ := within_release (P := P) (w := w) (hcaptures s hs)
    exact ⟨w', hback, trivial⟩
  case payload =>
    intro s hs w fs hlead
    have hlt : s.generator < m.world.generators.size :=
      m.world.lt_size_of_ne Generator.cleanup (hcleanups s hs ▸ Option.some_ne_none _)
    obtain ⟨-, hcleanup⟩ := stays_of_later hm (.of_leads hlead) hlt
    have hreleases := releases_releasePayload w fs s.generator
    suffices hback : ∃ w', releasePayload w fs s.generator = answer w' fs .unit by
      obtain ⟨w', hback⟩ := hback
      exact ⟨w', .of_task (List.suffix_refl fs) hback (.refl _), trivial⟩
    generalize releasePayload w fs s.generator = m' at hreleases
    cases hreleases with
    | nothing | lost | discarded => exact ⟨_, rfl⟩
    | paid hcallback =>
      rcases hcleanup with hsame | hnone
      · cases (hcallback.symm.trans hsame).trans (hcleanups s hs)
        exact ⟨_, rfl⟩
      · cases hcallback.symm.trans hnone

/-! ### Ends of pipelines -/

/-- What becomes of a pipeline with the operation that is begun in `m` on its first generator. -/
structure Cascades (P : Program C) (s : Stage C) (rest : List (Stage C)) (m : Machine C) : Prop where
  /-- A close succeeds when all stages have come to their ends, be frames unwound or not, -/
  closed : m.control = .task (.close s.generator) →
    ∃ w, Within P m.frames m ⟨w, .answer (.closed (.ok ())), m.frames⟩ ∧
      Wound P m ⟨w, .answer (.closed (.ok ())), m.frames⟩ (s :: rest)
  /-- and so does the drop of the last handle. -/
  dropped : m.control = .task (.dropHandle s.generator) → (m.world.generator s.generator).handles = 1 →
    ∃ w, Within P m.frames m ⟨w, .answer .unit, m.frames⟩ ∧
      Wound P m ⟨w, .answer .unit, m.frames⟩ (s :: rest)
  /-- An exception that is thrown in comes back as it is. -/
  thrown : ∀ e, m.control = .task (.throw s.generator e) →
    ∃ w, Within P m.frames m ⟨w, .answer (.progress (.error (.raised e))), m.frames⟩ ∧
      Wound P m ⟨w, .answer (.progress (.error (.raised e))), m.frames⟩ (s :: rest)

/-- Over every run pipelines of any length come to their ends. -/
theorem cascades_of_run (h : Run P (m :: ms)) (hpipeline : Conducts P m.world (s :: rest))
    (hgentle : Gentle P m (s :: rest)) : Cascades P s rest m := by
  have hdriven : Driven P m s rest := hgentle.driven h.reachable fun _ ht => ht
  obtain ⟨w, control, fs⟩ := m
  constructor
  case closed =>
    rintro rfl
    obtain ⟨w', hback, hends⟩ := hdriven.exists_closed h.reachable (.refl _) hpipeline
    exact ⟨w', hback, wound_of_windsUp h hpipeline (fun _ => rfl) hback.leads hends⟩
  case dropped =>
    rintro rfl hlast
    obtain ⟨w', hback, hends⟩ := hdriven.exists_dropped h.reachable (.refl _) hpipeline hlast
    exact ⟨w', hback, wound_of_windsUp h hpipeline (fun _ => rfl) hback.leads hends⟩
  case thrown =>
    rintro e rfl
    obtain ⟨w', hback, hends⟩ := hdriven.exists_thrown h.reachable (.refl _) hpipeline
    exact ⟨w', hback, wound_of_windsUp h hpipeline (fun _ => rfl) hback.leads hends⟩

end Machine

end Coroutine
