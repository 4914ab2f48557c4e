import Coroutine.Proofs.Composure
import Coroutine.Proofs.Finalization
import Coroutine.Proofs.Recovery

/-! The contract of a close that is made while no frames are unwound. Main statement: it resumes the
producer at most once, with a new exit signal, and comes back with what the producer and the
finalization answer; if the producer yields, its stack is unwound by force and the close panics. -/

namespace Coroutine

variable {C : Type}

namespace Generator

/-- The generator has ended, and there is no stack of it any more. -/
structure Still (x : Generator C) : Prop where
  status : x.status = .finished
  running : x.running = false
  fiber : x.fiber = none

variable {x y : Generator C}

theorem Spent.still (h : x.Spent) : x.Still := ⟨h.status, h.running, h.fiber⟩

theorem Still.of_like (h : x.Still) (hx : y.Like x) : y.Still :=
  ⟨hx.status.trans h.status, hx.running.trans h.running, hx.fiber.trans h.fiber⟩

end Generator

namespace Machine

variable {P : Program C} {δ : GeneratorId → Prop} {g : GeneratorId} {w w₁ w' : World C}
  {fs : List (Frame C)} {m m₁ m' : Machine C} {size : Nat} {v : Value}
  {k : Except Exception (Option Value) → C} {scopes : List (Scope C)}
  {captures : List (HeldGuard C)}

theorem Back.frames_ne {f : Frame C} (h : Back P f fs m) : m.frames ≠ fs := by
  intro heq
  have hlength := congrArg List.length heq
  cases h with
  | answers | unwinds => simp at hlength
  | yields => simp [stackFiber] at hlength; omega

/-! ### How a switch is over -/

/-- How a switch into the producer of `g` is over, which is begun in `m` on top of `fs`. -/
inductive Switched (P : Program C) (g : GeneratorId) (fs : List (Frame C)) (m : Machine C) :
    Machine C → Prop
  /-- The producer had panicked before. -/
  | dead (w : World C) : (m.world.generator g).Dead → (w.generator g).Spent →
      Switched P g fs m ⟨w, .answer (.progress (.error (.exhausted (m.world.generator g).name))), fs⟩
  | yielded (w : World C) {w₁ : World C} {c : C} {v : Value}
      {k : Except Exception (Option Value) → C} {size : Nat} {scopes : List (Scope C)}
      {captures : List (HeldGuard C)} : P.next c = .yield v k →
      Within P fs m ⟨w₁, .code c, stackFiber scopes captures (.driving g :: fs)⟩ →
      Within P fs ⟨w₁, .code c, stackFiber scopes captures (.driving g :: fs)⟩
        ⟨w, .answer (.progress (.ok (.yielded v))), fs⟩ →
      (w.generator g).fiber = some ⟨size, .suspended k scopes captures⟩ →
      Switched P g fs m ⟨w, .answer (.progress (.ok (.yielded v))), fs⟩
  | ended (w : World C) {w₁ : World C} {r : Except Exception Value} :
      Within P fs m ⟨w₁, .answer (.outcome r), .driving g :: fs⟩ → (w.generator g).Spent →
      Switched P g fs m ⟨w, .answer (.progress (Reaction.ends r : Reaction C).result), fs⟩
  | panicked (w : World C) {w₁ : World C} {p : Panic} :
      Within P fs m ⟨w₁, .unwind (.panic p), .driving g :: fs⟩ →
      Switched P g fs m ⟨w, .unwind (.panic p), fs⟩
  /-- The cleanup panicked. -/
  | uncleaned (w : World C) {w₁ : World C} {steps : List (Step C)} {message : String} {a : Answer} :
      (m.world.generator g).cleanup = some (.callback steps (some message)) →
      Within P fs m ⟨w₁, .task (.releasePayload g), .keeping a :: fs⟩ → (w.generator g).Spent →
      Switched P g fs m ⟨w, .unwind (.panic (.text message)), fs⟩

/-- A finalization that a switch comes to is the end of it. -/
theorem Finalized.switched {r : Except OpError (Progress Value Value)} {m₀ : Machine C}
    (hm : Reachable P m₀) (hg : g < m₀.world.generators.size)
    (hto : Within P fs m₀ ⟨w, .task (.finalize g), .keeping (.progress r) :: fs⟩)
    (h : Within P fs ⟨w, .task (.finalize g), .keeping (.progress r) :: fs⟩ m')
    (hm' : m'.frames = fs)
    (hanswer : ∀ w', (w'.generator g).Spent → Switched P g fs m₀ ⟨w', .answer (.progress r), fs⟩) :
    Switched P g fs m₀ m' := by
  have hlt := (stage_le_of_later hm (.of_leads hto.leads) hg).1
  obtain ⟨hfinalized, hspent, w₁, hpayload⟩ := finalized_of_keeping (hm.leads hto.leads) hlt h hm'
  cases hfinalized with
  | answered w' => exact hanswer w' hspent
  | panicked w' hcleanup =>
    obtain ⟨-, hsame | hnone⟩ := stays_of_later hm (.of_leads hto.leads) hg
    · exact .uncleaned w' (hsame.symm.trans hcleanup) (hto.trans hpayload) hspent
    · cases hnone.symm.trans hcleanup

/-- When control is back on the frame of the switch, the switch is over soon. -/
theorem switched_of_driving {m₀ : Machine C} (hm : Reachable P m₀)
    (hg : g < m₀.world.generators.size) (hto : Within P fs m₀ m)
    (hdriving : .driving g :: fs <:+ m.frames) (h : Within P fs m m') (hm' : m'.frames = fs)
    (hover : Over ⟨w, .task (.drive g), fs⟩ m') : Switched P g fs m₀ m' := by
  obtain ⟨m₁, hbefore, hafter, hback⟩ := h.back id hdriving hm'
  have hto₁ : Within P fs m₀ m₁ := hto.trans hbefore.under
  have hsound := (hm.leads hto₁.leads).sound
  have hmoved : Within P fs (m₁.next P) m' :=
    hafter.of_ne fun heq => hback.frames_ne ((congrArg Machine.frames heq).trans hm')
  cases hback with
  | answers w₁ a =>
    obtain ⟨κ, hκ, hfits⟩ := hsound.order
    cases hκ with
    | driving =>
      cases a with
      | outcome r =>
        obtain ⟨w₂, w₃, hend, hterminated, -⟩ := next_of_end (P := P) hsound
        rw [hend] at hmoved
        have hfinalize : Within P fs ⟨w₁, .answer (.outcome r), .driving g :: fs⟩ ⟨w₃,
            .task (.finalize g), .keeping (.progress (Reaction.ends r : Reaction C).result) :: fs⟩ :=
          .move (List.suffix_cons _ _) (fun _ _ => List.cons_ne_self _ _)
            (hend ▸ .of_task (List.suffix_refl fs) hterminated (.refl _))
        exact Finalized.switched hm hg (hto₁.trans hfinalize)
          (hmoved.of_task_over (hover.of_frames rfl) hterminated) hm' fun w' => .ended w' hto₁
      | _ => exact hfits.1.elim
  | unwinds w₁ u =>
    cases u with
    | cancel =>
      obtain ⟨κ, hκ, hfits⟩ := hsound.order
      have hcancel : κ = .cancel := hfits
      subst hcancel
      cases hκ
    | panic p =>
      have hleft : Within P fs ⟨leaveProducer w₁ g, .unwind (.panic p), fs⟩ m' := hmoved
      rw [hleft.eq_of_unwind hm']
      exact .panicked _ hto₁
  | @yields w₁ c v k scopes captures hP =>
    obtain ⟨w₂, w₃, size, hyield, hsuspended, hb⟩ := becomes_of_yield hsound hP
    rw [hyield] at hmoved
    have hanswered : Within P fs ⟨w₁, .code c, stackFiber scopes captures (.driving g :: fs)⟩
        ⟨w₃, .answer (.progress (.ok (.yielded v))), fs⟩ :=
      .move (suffix_under_stackFiber ..) nofun
        (hyield ▸ .of_task (List.suffix_refl fs) hsuspended (.refl _))
    have hrest := hmoved.of_task_over (hover.of_frames rfl) hsuspended
    rw [hrest.eq_answer]
    exact .yielded w₃ hP hto₁ hanswered (by rw [hb.self])

/-- What is begun in `m` gives up the producer of `g`, which has yielded in answer to a close that was
begun with `x`, and is over in `m'`: the stack is unwound by force, and once `g` is finalized there is
a panic. -/
structure Violates (P : Program C) (g : GeneratorId) (x : Generator C) (scopes : List (Scope C))
    (captures : List (HeldGuard C)) (fs : List (Frame C)) (m m' : Machine C) : Prop where
  unwinds : ∃ w, Within P fs m
    ⟨w, .unwind .cancel, stackFiber scopes captures (.destroying g :: .violating g :: fs)⟩
  releases : ∃ w, Within P fs m ⟨w, .task (.releasePayload g), .violating g :: fs⟩
  spent : (m'.world.generator g).Spent
  /-- A panic at the end of the cleanup comes before the panic of the close. -/
  panics : ∃ w p, m' = ⟨w, .unwind (.panic p), fs⟩ ∧ (p = .ignoredExit x.name ∨
    ∃ steps message, x.cleanup = some (.callback steps (some message)) ∧ p = .text message)

/-- How a close of `g` is over, which is begun in the world `w` on top of `fs`. -/
inductive Concluded (P : Program C) (g : GeneratorId) (w : World C) (fs : List (Frame C)) :
    Machine C → Prop
  /-- There is no producer to go on. -/
  | quiet (w' : World C) : ¬ (w.generator g).Parked → (w'.generator g).Still →
      ((w.generator g).status ≠ .finished → (w'.generator g).Spent) →
      Concluded P g w fs ⟨w', .answer (.closed (.ok ())), fs⟩
  | ended (w' : World C) {w₁ : World C} {r : Except Exception Value} :
      Within P fs ⟨w, .task (.close g), fs⟩
        ⟨w₁, .answer (.outcome r), .driving g :: .closing g :: fs⟩ →
      (w'.generator g).Spent → Concluded P g w fs ⟨w', .answer (.closed (closeResult r)), fs⟩
  | violated {w₁ : World C} {m' : Machine C} {c : C} {v : Value}
      {k : Except Exception (Option Value) → C} {scopes : List (Scope C)}
      {captures : List (HeldGuard C)} : P.next c = .yield v k →
      Within P fs ⟨w, .task (.close g), fs⟩
        ⟨w₁, .code c, stackFiber scopes captures (.driving g :: .closing g :: fs)⟩ →
      Violates P g (w.generator g) scopes captures fs
        ⟨w₁, .code c, stackFiber scopes captures (.driving g :: .closing g :: fs)⟩ m' →
      Concluded P g w fs m'
  | panicked (w' : World C) {w₁ : World C} {p : Panic} :
      Within P fs ⟨w, .task (.close g), fs⟩
        ⟨w₁, .unwind (.panic p), .driving g :: .closing g :: fs⟩ →
      Concluded P g w fs ⟨w', .unwind (.panic p), fs⟩
  /-- The cleanup panics. -/
  | uncleaned (w' : World C) {w₁ : World C} {steps : List (Step C)} {message : String}
      {above : List (Frame C)} :
      (w.generator g).cleanup = some (.callback steps (some message)) →
      Within P fs ⟨w, .task (.close g), fs⟩ ⟨w₁, .task (.releasePayload g), above ++ fs⟩ →
      (w'.generator g).Spent → Concluded P g w fs ⟨w', .unwind (.panic (.text message)), fs⟩

theorem Back.inside (h : Back P (.driving g) fs m) : .inside g ∈ Coroutine.marks m.frames := by
  cases h with
  | answers | unwinds => simp
  | yields => exact marks_subset_of_suffix (suffix_stackFiber ..) (by simp)

theorem Change.still {x : Generator C} (h : Change P g m x) (hg : (m.world.generator g).Still) :
    x.Still := by
  have hs := hg.status
  cases h with
  | kept _ hx => exact hg.of_like hx
  | starved _ hunused | started _ _ hunused => cases hunused.symm.trans hs
  | entered _ _ hrunning => cases hrunning.symm.trans hs
  | parted _ _ _ _ hinside | left _ _ _ hinside => cases hinside.started.status.symm.trans hs
  | finished hopen => exact absurd hs hopen
  | dissolved _ _ _ hx =>
    exact ⟨hx.status.trans hs, hx.running.trans hg.running, hx.fiber⟩
  | unstacked _ _ hparked => exact absurd hparked (Generator.not_parked_of_fiber hg.fiber)
  | unwound _ _ hunwound => cases hunwound.running.symm.trans hg.running
  | emptied _ _ hx | released _ _ hx =>
    exact ⟨hx.status.trans hs, hx.running.trans hg.running, hx.fiber.trans hg.fiber⟩

/-- Unless a panic leaves its producer, a generator that has been closed has come to rest. -/
theorem Concluded.still (h : Concluded P g w fs m') : (m'.world.generator g).Still ∨
    ∃ w₁ p, Within P fs ⟨w, .task (.close g), fs⟩
      ⟨w₁, .unwind (.panic p), .driving g :: .closing g :: fs⟩ := by
  cases h with
  | quiet w' _ hstill _ => exact .inl hstill
  | ended w' _ hspent | uncleaned w' _ _ hspent => exact .inl hspent.still
  | violated _ _ hviolates => exact .inl hviolates.spent.still
  | panicked w' hpanics => exact .inr ⟨_, _, hpanics⟩

end Machine

end Coroutine
