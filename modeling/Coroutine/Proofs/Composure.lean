import Coroutine.Proofs.Closing
import Coroutine.Proofs.Exiting
import Coroutine.Proofs.Representation
import Coroutine.Proofs.Unshaken

/-! Closes and drops that are made while frames are unwound. Main statement: none of them raises a
panic of its own or unwinds a fiber by force. A suspended producer still gets the exit signal, once. If
it ends then, the generator is finalized as ever; if it yields again, it is given up with all that its
stack holds, and the close succeeds. -/

namespace Coroutine

variable {C : Type}

namespace Machine

variable {P : Program C} {δ : GeneratorId → Prop} {g : GeneratorId} {w : World C}
  {fs : List (Frame C)} {m m' m₁ : Machine C} {ms : List (Machine C)} {held : HeldGuard C}
  {u : Unwinding} {c : C} {v : Value} {r : Except Exception Value}
  {k : Except Exception (Option Value) → C} {scopes : List (Scope C)}
  {captures : List (HeldGuard C)} {size : Nat}

/-! ### Payloads and cleanups -/

/-- The cleanup of `g` is taken once on every run. -/
theorem Finalizes.unique (h : Reachable P m) (hm₁ : Leads P m m₁) (hfirst : Finalizes g m₁)
    (hm' : Later P m m') (hagain : Finalizes g m') : m' = m₁ := by
  rcases hm'.compare hm₁ with hbefore | hafter
  · exact ((Ends.of_finalizes (h.later hm') hagain).once m₁ (.of_leads hbefore) hfirst).symm
  · exact (Ends.of_finalizes (h.leads hm₁) hfirst).once m' hafter hagain

/-- A cleanup that is called gets the payload, and is not called again. -/
theorem cleanups_of_calls (h : Run P (m :: ms)) (hcalls : Calls g m)
    (hplain : (m.world.generator g).plain = false) (hm' : Later P (m.next P) m') :
    m'.world.cleanups g = [payloadOf P g ms] := by
  have hm := h.reachable
  have hlt : g < m.world.generators.size :=
    m.world.lt_size_of_ne Generator.cleanup (Option.isSome_iff_ne_none.mp hcalls.cleanup)
  have hgone : ((m.next P).world.generator g).cleanup = none := hcalls.toFinalizes.next
  obtain ⟨steps, last, haccount, hsettled⟩ := pending_of_run h hcalls.cleanup hplain
  have hcallback : (m.world.generator g).cleanup = some (.callback steps last) :=
    congrArg Account.cleanup haccount
  have hpayload : (m.world.generator g).payload = some (payloadOf P g ms) :=
    congrArg Account.payload haccount
  have hcalled : (m.next P).world.cleanups g = [payloadOf P g ms] := by
    cases booking_next (P := P) hm.sound hlt with
    | kept hsame => cases (hgone.symm.trans (congrArg Account.cleanup hsame)).trans hcallback
    | appended _ _ _ hsame =>
      cases (hgone.symm.trans (congrArg Account.cleanup hsame)).trans hcallback
    | lost _ hheld => cases hheld.symm.trans hcalls.unheld
    | discarded hdiscard hno =>
      have hsame := hdiscard.symm.trans hcallback
      exact absurd (Option.some.inj hsame) (hno (Option.isSome_of_eq_some hpayload) steps last)
    | paid payload hsome _ _ _ _ _ hpaid =>
      cases hpayload.symm.trans hsome
      rw [World.cleanups_eq, hpaid, hsettled]
      simp [Event.payload?]
  rw [← hcalled]
  exact cleanups_of_later hm.move hm' (Nat.lt_of_lt_of_le hlt (size_le_next m)) hgone

/-- The cleanup of a producer that defied a close is not called, neither before nor after. -/
theorem cleanups_of_defies (h : Run P (m :: ms)) (hm₁ : Leads P m m₁) (hdefies : m₁.Defies g)
    (hplain : (m.world.generator g).plain = false) (hg : g < m.world.generators.size)
    (hm' : Later P m m') : m'.world.cleanups g = [] := by
  obtain ⟨k, hbefore, hafter⟩ := hm'.meet hm₁
  obtain ⟨ms₁, hrun₁, -⟩ := h.later (.of_leads hm₁)
  obtain ⟨ks, hrun, hmem⟩ := hrun₁.after hafter
  have hm := h.reachable
  have hdefied : Defied (k :: ks) g := ⟨m₁, .tail _ hmem, hdefies⟩
  obtain ⟨hlt, hsame⟩ := plain_of_later hm (hm'.trans hbefore) hg
  have hnone : k.world.cleanups g = [] := by
    have hbalance := (accounted_of_run hrun).balance g hlt (hsame.trans hplain)
    rw [World.cleanups_eq]
    generalize (k.world.generator g).account = a, k.world.settled g = es at hbalance
    cases hbalance with
    | pending => rfl
    | paid _ hno => exact absurd hdefied hno
    | lost => rfl
  obtain ⟨events, hevents⟩ := history_of_later (hm.later hm') hbefore
  rw [World.cleanups, ← hevents, List.filterMap_append, List.append_eq_nil_iff] at hnone
  exact hnone.2

/-- Guards that are given up with a stack are not released, neither before nor after. -/
theorem releases_of_givesUp (h : Run P (m :: ms)) (hm₁ : Leads P m m₁)
    (hgivesUp : GivesUp g held m₁) (hm' : Later P m m') :
    m'.world.releases held.serial = 0 := by
  obtain ⟨k, hbefore, hafter⟩ := hm'.meet hm₁
  obtain ⟨ms₁, hrun₁, -⟩ := h.later (.of_leads hm₁)
  obtain ⟨ks, hrun, hmem⟩ := hrun₁.after hafter
  have hnone : k.world.releases held.serial = 0 := by
    have hcopies := copies_of_run hrun hmem hgivesUp
    simp only [copies, World.copies] at hcopies
    omega
  have hle := releases_of_later (h.reachable.later hm') hbefore held.serial
  omega

/-! ### What becomes of a producer -/

/-- A close lets the suspended producer of `g` go on with the exit signal, and not again. -/
structure Signals (P : Program C) (g : GeneratorId) (k : Except Exception (Option Value) → C)
    (scopes : List (Scope C)) (captures : List (HeldGuard C)) (fs : List (Frame C))
    (m m₁ : Machine C) : Prop where
  /-- The signal is raised where the producer was suspended, -/
  raised : ∃ w e, e.isExit = true ∧
    m₁ = ⟨w, .code (k (.error e)), stackFiber scopes captures (.driving g :: .closing g :: fs)⟩
  reached : Within P fs m m₁
  /-- for which control is switched into the producer, once and for all, -/
  resumed : Resumes g (m.next P)
  once : ∀ m', Later P m m' → Resumes g m' → m' = m.next P
  /-- and it is left with its end, with a panic or with another yield. -/
  leaves : ∀ m', Within P (.closing g :: fs) m₁ m' → m'.frames = .closing g :: fs →
    ∃ m₂, Within P (.driving g :: .closing g :: fs) m₁ m₂ ∧ Within P (.closing g :: fs) m₂ m' ∧
      Back P (.driving g) (.closing g :: fs) m₂

theorem exists_signals (hm : Reachable P ⟨w, .task (.close g), fs⟩)
    (hf : (w.generator g).fiber = some ⟨size, .suspended k scopes captures⟩) :
    ∃ w₁, Signals P g k scopes captures fs ⟨w, .task (.close g), fs⟩ ⟨w₁,
      .code (k (.error w.exitSignal)), stackFiber scopes captures (.driving g :: .closing g :: fs)⟩ := by
  obtain ⟨w₁, hnext, hb⟩ := next_of_close (P := P) hm.sound hf
  have hf₁ : (w₁.generator g).fiber = some ⟨size, .suspended k scopes captures⟩ := by
    rw [hb.self]
    exact hf
  have herror : (w₁.generator g).error = some w.exitSignal := by rw [hb.self]
  obtain ⟨w₂, hraised, -⟩ := within_raised (P := P) (.closing g :: fs) hf₁ herror
  have hresumes : Resumes g (next P ⟨w, .task (.close g), fs⟩) := by
    rw [hnext]
    exact ⟨rfl, _, _, _, _, hf₁⟩
  exact ⟨w₂, ⟨w₂, w.exitSignal, rfl, rfl⟩, .of_task (List.suffix_refl fs) hnext hraised.under, hresumes,
    fun m' hlater hagain => resumes_once hm hf hlater hagain,
    fun m' hwithin hframes => hwithin.back id (suffix_stackFiber ..) hframes⟩

/-- What follows when a producer that is closed comes to the end `r`. -/
structure Concludes (P : Program C) (g : GeneratorId) (r : Except Exception Value)
    (fs : List (Frame C)) (m : Machine C) (ms : List (Machine C)) (m₁ : Machine C) : Prop where
  /-- All that it held has been released. -/
  released : ∀ held, (∃ m₀ ∈ ms, Acquires P g held m₀) → Disposed P held (m :: ms)
  /-- Its cleanup is called next, once and for all, -/
  calls : Calls g m₁ ∧ (m₁.world.generator g).status = .finished
  finalizes : Within P (.closing g :: fs) m m₁
  once : ∀ m', Later P m m' → Finalizes g m' → m' = m₁
  /-- with the payload as the producer left it. -/
  paid : (m.world.generator g).plain = false → ∀ m', Later P (m₁.next P) m' →
    m'.world.cleanups g = [payloadOf P g ms]
  /-- The close comes back when the cleanup does. -/
  closes : ∀ w a, Within P m₁.frames (m₁.next P) ⟨w, .answer a, m₁.frames⟩ →
    Within P fs m ⟨w, .answer (.closed (closeResult r)), fs⟩

theorem exists_concludes
    (h : Run P (⟨w, .answer (.outcome r), .driving g :: .closing g :: fs⟩ :: ms)) :
    ∃ m₁, Concludes P g r fs ⟨w, .answer (.outcome r), .driving g :: .closing g :: fs⟩ ms m₁ := by
  have hm := h.reachable
  have hsound := hm.sound
  have hrest : Rest (Coroutine.marks (.driving g :: .closing g :: fs)) g (w.generator g) :=
    hsound.rest rfl
  have hcleanup := (hrest.inside (by simp)).1.started.cleanup
  obtain ⟨w₁, hto, hb, -⟩ := within_end hm
  generalize hm₁ : (⟨w₁, .task (.releasePayload g), .keeping (.progress
    (Reaction.ends r : Reaction C).result) :: .closing g :: fs⟩ : Machine C) = m₁ at hto
  have hcalls : Calls g m₁ := by
    subst hm₁
    exact ⟨⟨rfl, by rw [hb.self]; exact hcleanup⟩, by rw [hb.self]⟩
  have hstatus : (m₁.world.generator g).status = .finished := by
    subst hm₁
    exact congrArg Generator.status hb.self
  have haccount : (m₁.world.generator g).account = (w.generator g).account := by
    subst hm₁
    show (w₁.generator g).account = _
    rw [hb.self]
    rfl
  refine ⟨m₁, ?_, ⟨hcalls, hstatus⟩, hto,
    fun m' hlater hagain => hcalls.toFinalizes.unique hm hto.leads hlater hagain, ?_, ?_⟩
  · intro held hcame
    have hparts : (⟨w, .answer (.outcome r), .driving g :: .closing g :: fs⟩ : Machine C).frames =
        [] ++ .driving g :: .closing g :: fs := rfl
    rcases discharged_of_inside h hparts nofun rfl nofun hcame with ⟨⟨⟩⟩ | hdisposed
    exact hdisposed
  · intro hplain m' hlater
    obtain ⟨ms₁, hrun₁, -⟩ := h.later (.of_leads hto.leads)
    have hplain₁ : (m₁.world.generator g).plain = false :=
      (congrArg Account.plain haccount).trans hplain
    obtain ⟨steps, last, hpending, -⟩ := pending_of_run h hcleanup hplain
    obtain ⟨steps₁, last₁, hpending₁, -⟩ := pending_of_run hrun₁ hcalls.cleanup hplain₁
    have hpayload := congrArg Account.payload ((hpending₁.symm.trans haccount).trans hpending)
    rw [cleanups_of_calls hrun₁ hcalls hplain₁ hlater, Option.some.inj hpayload]
  · intro w' a hback
    subst hm₁
    have hkeeping : fs <:+ .keeping (.progress (Reaction.ends r : Reaction C).result) ::
        .closing g :: fs := ⟨[_, _], rfl⟩
    exact hto.under.trans (.move hkeeping nofun ((hback.of_suffix hkeeping).trans within_closed))

/-- What follows when a producer yields that is closed while frames are unwound. -/
structure Forfeits (P : Program C) (g : GeneratorId) (scopes : List (Scope C))
    (captures : List (HeldGuard C)) (fs : List (Frame C)) (m : Machine C) : Prop where
  /-- The generator ends and the close succeeds. Nothing is done to other generators. -/
  closes : ∃ w, Within P fs m ⟨w, .answer (.closed (.ok ())), fs⟩ ∧
    (w.generator g).status = .finished ∧ ∀ h, h ≠ g → w.generator h = m.world.generator h
  /-- The producer never runs again, -/
  silent : ∀ m', Later P (m.next P) m' → .inside g ∉ Coroutine.marks m'.frames
  /-- no guard is released that it put on its stack or that its entry procedure captured, -/
  lost : ∀ held ∈ guardsOn (scopes.map .scope ++ [.closure captures]), ∀ m', Later P m m' →
    m'.world.releases held.serial = 0
  /-- and its cleanup is not called. -/
  uncalled : (m.world.generator g).plain = false → ∀ m', Later P m m' → m'.world.cleanups g = []

theorem forfeits_of_yield
    (h : Run P (⟨w, .code c, stackFiber scopes captures (.driving g :: .closing g :: fs)⟩ :: ms))
    (hP : P.next c = .yield v k) (hpanicking : panicking fs = true) :
    Forfeits P g scopes captures fs
      ⟨w, .code c, stackFiber scopes captures (.driving g :: .closing g :: fs)⟩ := by
  have hm := h.reachable
  have hrest : Rest (Coroutine.marks (stackFiber scopes captures (.driving g :: .closing g :: fs))) g
    (w.generator g) := hm.sound.rest rfl
  have hlt : g < w.generators.size := w.lt_size_of_started (hrest.inside (by simp)).1.started
  obtain ⟨size, m₁, m₂, m₃, hforsakes⟩ := exists_forsakes hm.sound hP hpanicking
  have hclosing : fs <:+ .closing g :: fs := List.suffix_cons _ fs
  constructor
  case closes =>
    obtain ⟨w₃, rfl, hstatus, hothers⟩ := hforsakes.closes
    exact ⟨w₃, hforsakes.defies.trans (hforsakes.abandons.trans hforsakes.succeeds), hstatus, hothers⟩
  case silent =>
    intro m' hlater
    have hparted : Exited g fs (next P ⟨w, .code c,
        stackFiber scopes captures (.driving g :: .closing g :: fs)⟩) := by
      obtain ⟨w₁, -, hyield, -⟩ := next_of_yield hm.sound hP
      rw [hyield]
      exact .parted
    exact (hparted.later hm.move hlater).not_inside (hm.move.later hlater).sound
  case lost =>
    intro held hheld m' hlater
    obtain ⟨f, hf, hguard⟩ := List.mem_flatMap.mp hheld
    obtain ⟨w₂, rfl, hfiber⟩ := hforsakes.finalizes
    have hto := hforsakes.defies.trans hforsakes.abandons
    have hgivesUp : GivesUp g held ⟨w₂, .task (.finalize g), .violating g :: fs⟩ :=
      ⟨rfl, hpanicking, _, f, hfiber, hf, hguard⟩
    exact releases_of_givesUp h hto.leads hgivesUp hlater
  case uncalled =>
    intro hplain m' hlater
    obtain ⟨w₁, rfl⟩ := hforsakes.yields
    have hdefies : Defies g ⟨w₁, .answer (.progress (.ok (.yielded v))), .closing g :: fs⟩ :=
      ⟨v, fs, rfl, rfl, hpanicking⟩
    exact cleanups_of_defies h hforsakes.defies.leads hdefies hplain hlt hlater

/-- The cleanup is gone of a generator whose producer has not defied a close: it has been called. -/
theorem cleanups_of_none (h : Run P (m :: ms)) (hg : g < m.world.generators.size)
    (hplain : (m.world.generator g).plain = false) (hnone : (m.world.generator g).cleanup = none)
    (hno : ¬ Defied (m :: ms) g) : m.world.cleanups g = [payloadOf P g ms] := by
  have hbalance := (accounted_of_run h).balance g hg hplain
  have hnone : (m.world.generator g).account.cleanup = none := hnone
  rw [World.cleanups_eq]
  generalize (m.world.generator g).account = a, m.world.settled g = es at hbalance hnone
  cases hbalance with
  | pending => cases hnone
  | paid name _ => simp [Event.payload?]
  | lost _ _ hdefied => exact absurd hdefied hno

/-- A generator whose producer has not defied a close has been cleaned up when nothing is left to be
done about it, whatever other producers have done. -/
theorem cleanups_of_gone (h : Run P (m :: ms)) (hplain : (m.world.generator g).plain = false)
    (hgone : Gone g m) (hno : ¬ Defied (m :: ms) g) : m.world.cleanups g = [payloadOf P g ms] :=
  cleanups_of_none h hgone.known hplain (hgone.cleanup h.reachable.sound) hno

/-! ### The drop of a list of handles -/

/-- What is begun in `m` comes to an end. -/
def Finishes (P : Program C) (m : Machine C) : Prop := ∃ m', Within P m.frames m m' ∧ Over m m'

/-- From the world `w` on the handles are dropped one after another by a caller that the panic `u`
leaves, and every drop comes back. -/
inductive Drops (P : Program C) (u : Unwinding) (fs : List (Frame C)) :
    List GeneratorId → World C → Prop
  | none (w : World C) : Drops P u fs [] w
  | next {w w' : World C} {g : GeneratorId} {gs : List GeneratorId} :
      Within P (.unwinding u :: .owningHandles gs :: fs)
        ⟨w, .task (.dropHandle g), .unwinding u :: .owningHandles gs :: fs⟩
        ⟨w', .answer .unit, .unwinding u :: .owningHandles gs :: fs⟩ →
      Drops P u fs gs w' → Drops P u fs (g :: gs) w

variable {gs : List GeneratorId}

/-- When the handles have been dropped the panic goes on. -/
theorem Drops.within (h : Drops P u fs gs w) :
    ∃ w', Within P fs ⟨w, .unwind u, .owningHandles gs :: fs⟩ ⟨w', .unwind u, fs⟩ := by
  induction h with
  | none w => exact ⟨w, .move (List.suffix_cons _ fs) nofun (.refl _)⟩
  | @next w w₁ g gs hdrop _ ih =>
    obtain ⟨w₂, hrest⟩ := ih
    have hsuffix : fs <:+ .unwinding u :: .owningHandles gs :: fs := ⟨[_, _], rfl⟩
    refine ⟨w₂, .move (List.suffix_cons _ fs) nofun ((hdrop.of_suffix hsuffix).trans ?_)⟩
    refine .move hsuffix (fun _ _ heq => ?_) hrest
    have hlength := congrArg List.length heq
    simp only [List.length_cons] at hlength
    omega

/-- A drop that comes to an end without a panic comes back. -/
theorem exists_dropped (hm : Reachable P ⟨w, .task (.dropHandle g), .unwinding u :: fs⟩)
    (hfinishes : Finishes P ⟨w, .task (.dropHandle g), .unwinding u :: fs⟩)
    (hsteady : Steady P g (.unwinding u :: fs) ⟨w, .task (.dropHandle g), .unwinding u :: fs⟩) :
    ∃ w', Within P (.unwinding u :: fs) ⟨w, .task (.dropHandle g), .unwinding u :: fs⟩
      ⟨w', .answer .unit, .unwinding u :: fs⟩ := by
  obtain ⟨m', hwithin, hover⟩ := hfinishes
  cases hover with
  | answered w' a =>
    refine ⟨w', ?_⟩
    obtain ⟨κ, hκ, hfits, -⟩ := (hm.leads hwithin.leads).sound.order
    cases a with
    | unit => exact hwithin
    | _ => cases hκ <;> exact hfits.elim
  | unwound w' u' => exact absurd hwithin (contained_of_dropHandle hm rfl hsteady w' u')

theorem drops_of_steady (hm : Reachable P ⟨w, .unwind u, .owningHandles gs :: fs⟩)
    (hsteady : ∀ g ∈ gs, Steady P g fs ⟨w, .unwind u, .owningHandles gs :: fs⟩)
    (hfinishes : ∀ w' h rest, Within P fs ⟨w, .unwind u, .owningHandles gs :: fs⟩
      ⟨w', .task (.dropHandle h), .unwinding u :: .owningHandles rest :: fs⟩ →
      Finishes P ⟨w', .task (.dropHandle h), .unwinding u :: .owningHandles rest :: fs⟩) :
    Drops P u fs gs w := by
  induction gs generalizing w with
  | nil => exact .none w
  | cons g gs ih =>
    have hsuffix : fs <:+ .unwinding u :: .owningHandles gs :: fs := ⟨[_, _], rfl⟩
    have hbegun : Within P fs ⟨w, .unwind u, .owningHandles (g :: gs) :: fs⟩
        ⟨w, .task (.dropHandle g), .unwinding u :: .owningHandles gs :: fs⟩ :=
      .move (List.suffix_cons _ fs) nofun (.refl _)
    have hknown {h : GeneratorId} (hh : h ∈ g :: gs) : h < w.generators.size := by
      have howned : Machine.held h ⟨w, .unwind u, .owningHandles (g :: gs) :: fs⟩ ≤
        (w.generator h).handles := hm.sound.owned h
      have hone : handleTo h h ≤ Frame.held h (.owningHandles (g :: gs) : Frame C) :=
        List.single_le_sum (fun _ _ => Nat.zero_le _) _ (List.mem_map.mpr ⟨h, hh, rfl⟩)
      refine w.lt_size_of_handles ?_
      simp only [Machine.held, heldFrames, List.map_cons, List.sum_cons] at howned
      simp only [handleTo, if_true] at hone
      omega
    have hm₁ := hm.leads hbegun.leads
    have hfirst := (hsteady g (.head _)).within hm (hknown (.head _)) hbegun hsuffix
    obtain ⟨w₁, hdropped⟩ := exists_dropped hm₁ (hfinishes _ _ _ hbegun) hfirst
    have hto : Within P fs ⟨w, .unwind u, .owningHandles (g :: gs) :: fs⟩
        ⟨w₁, .unwind u, .owningHandles gs :: fs⟩ := by
      refine hbegun.trans ((hdropped.of_suffix hsuffix).trans (.move hsuffix ?_ (.refl _)))
      intro _ _ heq
      have hlength := congrArg List.length heq
      simp only [List.length_cons] at hlength
      omega
    refine .next hdropped (ih (hm.leads hto.leads) (fun h hh => ?_) fun w' h rest hwithin => ?_)
    · exact (hsteady h (.tail _ hh)).within hm (hknown (.tail _ hh)) hto (List.suffix_refl fs)
    · exact hfinishes w' h rest (hto.trans hwithin)

/-! ### Where panics come from -/

/-- With the next move frames begin to be unwound that were not being unwound for that before. -/
structure Raises (P : Program C) (u : Unwinding) (m : Machine C) : Prop where
  begins : (m.next P).control = .unwind u
  fresh : m.control ≠ .unwind u
  /-- Nor does a panic go on after a release. -/
  resumed : ∀ a fs, m.control = .answer a → m.frames ≠ .unwinding u :: fs

/-- Whatever is raised has a cause. -/
theorem Raises.cause (h : Raises P u m) : Cause m.frames u := by
  obtain ⟨y, fs, -, heffect⟩ := effect_next P m
  refine (heffect.unwinds u h.begins).resolve_right fun hunwinds => ?_
  cases hunwinds with
  | still hcontrol => exact h.fresh hcontrol
  | again hcontrol hframes => exact h.resumed _ _ hcontrol hframes

/-- While frames are unwound, only user code panics. -/
theorem Raises.user (h : Raises P u m) (hm : Sound δ (m.next P))
    (hpanicking : panicking m.frames = true) : ∃ message, u = .panic (.text message) := by
  cases h.cause with
  | user message => exact ⟨message, rfl⟩
  | fault f =>
    obtain ⟨κ, -, hfits⟩ := hm.order
    rw [h.begins] at hfits
    exact absurd rfl (hfits.1 f)
  | ignored _ hfs | cancel hfs => cases hpanicking.symm.trans hfs

/-- What the runs of the machine keep of closes and drops that are made while frames are unwound. The
run has come to `m`, and made the moves from `ms` before. -/
structure Composed (P : Program C) (m : Machine C) (ms : List (Machine C)) : Prop where
  /-- Whatever is raised then is a panic of user code, and no fiber is unwound by force. -/
  own : panicking m.frames = true → ∀ u, Raises P u m → ∃ message, u = .panic (.text message)
  /-- No panic leaves a close or the drop of a handle, if the producer raises none, nor the cleanup
  at its end. -/
  calm : ∀ w t g fs, m = ⟨w, .task t, fs⟩ → t = .close g ∨ t = .dropHandle g →
    panicking fs = true → Steady P g fs m → Contained P fs m
  /-- The drop of the last handle closes the generator first, -/
  last : ∀ w g fs, m = ⟨w, .task (.dropHandle g), fs⟩ → (w.generator g).handles = 1 →
    (w.generator g).status ≠ .finished → ∃ w', m.next P = ⟨w', .task (.close g), .dropping g :: fs⟩ ∧
      w.Becomes g { w.generator g with handles := 0 } w'
  /-- and comes back after the close. -/
  dropped : ∀ w g r fs, m = ⟨w, .answer (.closed r), .dropping g :: fs⟩ →
    (w.generator g).status = .finished → ∃ w', Within P fs m ⟨w', .answer .unit, fs⟩
  /-- A suspended producer gets the exit signal, once. -/
  signalled : ∀ w g size k scopes captures fs, m = ⟨w, .task (.close g), fs⟩ →
    (w.generator g).fiber = some ⟨size, .suspended k scopes captures⟩ → panicking fs = true →
    ∃ m₁, Signals P g k scopes captures fs m m₁
  /-- If it ends then, the generator is finalized, be frames unwound or not. -/
  concluded : ∀ w g r fs, m = ⟨w, .answer (.outcome r), .driving g :: .closing g :: fs⟩ →
    ∃ m₁, Concludes P g r fs m ms m₁
  /-- If it yields, it is given up. -/
  forfeited : ∀ w g c v k scopes captures fs,
    m = ⟨w, .code c, stackFiber scopes captures (.driving g :: .closing g :: fs)⟩ →
    P.next c = .yield v k → panicking fs = true → Forfeits P g scopes captures fs m
  /-- That is of no consequence for other generators: when nothing is left to be done about one, its
  cleanup has been called, unless its own producer has yielded in answer to a close. -/
  others : ∀ g, (m.world.generator g).plain = false → Gone g m → ¬ Defied (m :: ms) g →
    m.world.cleanups g = [payloadOf P g ms]
  /-- A panic goes through a caller that owns handles, all of which are dropped, if no producer raises
  a panic, nor a cleanup at its end, and every drop comes to an end. -/
  drops : ∀ w u gs fs, m = ⟨w, .unwind u, .owningHandles gs :: fs⟩ → (∀ g ∈ gs, Steady P g fs m) →
    (∀ w' g rest, Within P fs m
        ⟨w', .task (.dropHandle g), .unwinding u :: .owningHandles rest :: fs⟩ →
      Finishes P ⟨w', .task (.dropHandle g), .unwinding u :: .owningHandles rest :: fs⟩) →
    Drops P u fs gs w ∧ ∃ w', Within P fs m ⟨w', .unwind u, fs⟩

/-- Over every run closes and drops go on while frames are unwound. -/
theorem composed_of_run (h : Run P (m :: ms)) : Composed P m ms := by
  have hm := h.reachable
  constructor
  case own => exact fun hpanicking u hraises => hraises.user hm.move.sound hpanicking
  case calm =>
    rintro w t g fs rfl (rfl | rfl) hpanicking hsteady
    · exact contained_of_close hm hpanicking hsteady
    · exact contained_of_dropHandle hm hpanicking hsteady
  case last =>
    rintro w g fs rfl hlast hs
    exact next_of_last fs hlast hs
  case dropped =>
    rintro w g r fs rfl hs
    exact within_dropped fs r hs
  case signalled =>
    rintro w g size k scopes captures fs rfl hf -
    exact (exists_signals hm hf).elim fun _ hsignals => ⟨_, hsignals⟩
  case concluded =>
    rintro w g r fs rfl
    exact exists_concludes h
  case forfeited =>
    rintro w g c v k scopes captures fs rfl hP hpanicking
    exact forfeits_of_yield h hP hpanicking
  case others => exact fun g hplain hgone hno => cleanups_of_gone h hplain hgone hno
  case drops =>
    rintro w u gs fs rfl hsteady hfinishes
    have hdrops := drops_of_steady hm hsteady hfinishes
    exact ⟨hdrops, hdrops.within⟩

/-- The code of a producer that puts a guard on its stack and only ever yields. -/
def stubborn : Program Bool :=
  ⟨fun c => if c then .hold ⟨"held", []⟩ false else .yield .null fun _ => false⟩

/-- The only handle of a suspended generator is dropped by a caller that a panic leaves. Its producer
gets the exit signal, yields all the same, and is given up with the guards that it has. -/
theorem composed_of_stubborn : ∃ (m m₁ : Machine Bool) (ms ms₁ : List (Machine Bool)),
    Composed stubborn m ms ∧ Composed stubborn m₁ ms₁ ∧ Later stubborn m m₁ ∧
      panicking m.frames = true ∧ m.control = .task (.close 0) ∧
      (∃ k scopes captures m', Signals stubborn 0 k scopes captures m.frames m m') ∧
      (∃ scopes captures fs, guardsOn (scopes.map .scope ++ [.closure captures]) =
          [⟨1, ⟨"held", []⟩⟩, ⟨0, ⟨"captured", []⟩⟩] ∧
        Forfeits stubborn 0 scopes captures fs m₁) := by
  have hresume := run_soon stubborn ⟨"captured", []⟩ true (.resume "g" none) 11
  have hclose := (hresume.again (.unwind ["g"]) ⟨rfl, .inl ⟨_, rfl⟩⟩).trail 3
  have hyield := hclose.trail 3
  have hcomposed := composed_of_run hclose
  have hcomposed₁ := composed_of_run hyield
  refine ⟨_, _, _, _, hcomposed, hcomposed₁, .move (.move (.move .refl)), rfl, rfl, ?_, ?_⟩
  · obtain ⟨m', hsignals⟩ := hcomposed.signalled _ _ _ _ _ _ _ rfl rfl rfl
    exact ⟨_, _, _, m', hsignals⟩
  · exact ⟨[_], [_], _, rfl, hcomposed₁.forfeited _ _ _ _ _ _ _ _ rfl rfl rfl⟩

end Machine

end Coroutine
