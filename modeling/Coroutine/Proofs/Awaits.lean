import Coroutine.Proofs.Chain

/-! What the frames of a stack wait for. Every frame waits for one sort of answer and hands another
sort on, so a stack is in order if each frame hands on what the frame below waits for. Some frames
stand for facts that last: an answer is only kept for an operation on a generator that has ended,
for instance. These facts enter as two sets of generators, those that exist and those that have
ended, which grow as the machine moves. -/

namespace Coroutine

variable {C : Type}

/-- What a stack may wait for. -/
inductive Awaited
  /-- The code of a fiber, whose scopes are on top. -/
  | code
  | outcome
  /-- The end of an operation on `g` that may run its producer. -/
  | progress (g : GeneratorId)
  /-- The same, where the operation is part of a close. -/
  | pursued (g : GeneratorId)
  | closed (g : GeneratorId)
  | reply
  | unit
  /-- The end of a release that no panic leaves. -/
  | quiet
  /-- A panic, and no answer. -/
  | panic
  /-- The end of a forced unwinding. -/
  | cancel
  deriving DecidableEq

namespace Awaited

/-- The generator that the awaited operation is about. -/
def operand? : Awaited → Option GeneratorId
  | progress g | pursued g | closed g => some g
  | _ => none

/-- The generator whose close, or whose part in it, is awaited. -/
def closing? : Awaited → Option GeneratorId
  | pursued g | closed g => some g
  | _ => none

theorem operand?_of_closing? {κ : Awaited} {g : GeneratorId} (h : κ.closing? = some g) :
    κ.operand? = some g := by
  cases κ with
  | pursued | closed => exact h
  | _ => cases h

/-- Whether a panic may come instead. -/
def IsOpen (κ : Awaited) : Prop := κ ≠ quiet ∧ κ ≠ cancel

end Awaited

/-- Whether an answer is of the awaited sort. -/
def Answer.Fits : Answer → Awaited → Prop
  | .unit, .unit | .unit, .quiet | .outcome _, .code | .outcome _, .outcome
  | .progress _, .progress _ | .progress _, .pursued _ | .closed _, .closed _
  | .reply _, .reply => True
  | _, _ => False

/-- Whether an operation came back with a yielded value, so that its producer is suspended. -/
def Answer.IsYield : Answer → Prop
  | .progress (.ok (.yielded _)) => True
  | _ => False

theorem Answer.Fits.not_isYield {a : Answer} {κ : Awaited} (h : a.Fits κ)
    (hκ : κ.operand? = none) : ¬ a.IsYield := by
  intro hy
  cases a with
  | progress r => cases κ <;> first | exact h.elim | cases hκ
  | _ => exact hy.elim

/-- Whether a panic is none of the machine's own. -/
def Panic.Orderly (p : Panic) : Prop := ∀ f, p ≠ .fault f

/-- What is known of generators for good: which ones exist and which ones have ended. -/
structure Fates where
  known : GeneratorId → Prop
  ended : GeneratorId → Prop

/-- What is known stays known. -/
structure Fates.Le (F F' : Fates) : Prop where
  known : ∀ g, F.known g → F'.known g
  ended : ∀ g, F.ended g → F'.ended g

/-- The frames of a stack are in order and wait for what `κ` says. -/
inductive Awaits (F : Fates) : Awaited → List (Frame C) → Prop
  | nothing : Awaits F .reply []
  | scope {s : Scope C} {fs} : Awaits F .code fs → Awaits F .code (.scope s :: fs)
  | closure {captures} {fs} :
      Awaits F .outcome fs → Awaits F .code (.closure captures :: fs)
  | driving {κ g fs} : Awaits F κ fs → κ = .progress g ∨ κ = .pursued g →
      g ∉ chain fs → Awaits F .outcome (.driving g :: fs)
  | switching {f size fs} :
      Awaits F .reply fs → Awaits F .outcome (.switching f size :: fs)
  | cancelledScope {s fs} : Awaits F .cancel fs → Awaits F .cancel (.scope s :: fs)
  | cancelledClosure {captures fs} :
      Awaits F .cancel fs → Awaits F .cancel (.closure captures :: fs)
  | destroying {g fs} : Awaits F .unit fs → g ∉ chain fs →
      Awaits F .cancel (.destroying g :: fs)
  | dismantling {fs} : Awaits F .unit fs → Awaits F .cancel (.dismantling :: fs)
  | entering {s c fs} :
      Awaits F .code fs → Awaits F .unit (.entering s c :: fs)
  | resuming {c fs} : Awaits F .code fs → Awaits F .unit (.resuming c :: fs)
  | calling {catchesPanics k fs} :
      Awaits F .code fs → Awaits F .reply (.calling catchesPanics k :: fs)
  | pulling {g k fs} : Awaits F .code (.scope (.iterator (some g)) :: fs) →
      Awaits F (.progress g) (.pulling g k :: .scope (.iterator (some g)) :: fs)
  | viewing {κ g k fs} : κ = .progress g ∨ κ = .closed g → Awaits F .code fs →
      Awaits F κ (.viewing g k :: fs)
  | reporting {κ g fs} : κ = .progress g ∨ κ = .closed g → Awaits F .reply fs →
      Awaits F κ (.reporting :: .holding g :: fs)
  | holding {g fs} : Awaits F .reply fs → Awaits F .reply (.holding g :: fs)
  | pullingNamed {it g left items fs} : Awaits F .reply fs →
      Awaits F (.progress g) (.pullingNamed it g left items :: fs)
  | endingNamed {it left items item fs} : Awaits F .reply fs →
      Awaits F .unit (.endingNamed it left items item :: fs)
  | keeping {a κ fs} : a.Fits κ → ¬ a.IsYield → κ.IsOpen →
      (∀ g, κ.operand? = some g → F.ended g) → Awaits F κ fs → Awaits F .unit (.keeping a :: fs)
  | unwinding {p κ fs} : p.Orderly → κ.IsOpen → κ.operand? = none → Awaits F κ fs →
      Awaits F .unit (.unwinding (.panic p) :: fs)
  | cancelling {fs} :
      Awaits F .cancel fs → Awaits F .unit (.unwinding .cancel :: fs)
  | catching {a κ fs} : a.Fits κ → κ.IsOpen → κ.closing? = none → Awaits F κ fs →
      Awaits F .panic (.catching a :: fs)
  | closing {g fs} : Awaits F (.closed g) fs → F.known g → g ∉ chain fs →
      Awaits F (.pursued g) (.closing g :: fs)
  | violating {g fs} : Awaits F (.closed g) fs → F.ended g →
      Awaits F .unit (.violating g :: fs)
  | dropping {g fs} : Awaits F .unit fs → F.known g → g ∉ chain fs →
      Awaits F (.closed g) (.dropping g :: fs)
  | emptying {g fs} : Awaits F .unit fs → F.ended g → g ∉ chain fs →
      Awaits F .quiet (.emptying g :: fs)
  | cleaning {todo last fs} :
      Awaits F .unit fs → Awaits F .reply (.cleaning todo last :: fs)
  | onRelease {κ name todo rest fs} : κ = .unit ∨ κ = .quiet → Awaits F κ fs →
      Awaits F .reply (.onRelease name todo rest :: fs)
  | owningHandles {gs fs} :
      Awaits F .reply fs → Awaits F .panic (.owningHandles gs :: fs)
  | owningFibers {announced fibers fs} : Awaits F .reply fs →
      Awaits F .panic (.owningFibers announced fibers :: fs)

namespace Awaits

variable {F F' : Fates} {κ : Awaited} {fs : List (Frame C)} {g : GeneratorId}

/-- A stack in order stays so as more is known. -/
theorem mono (h : Awaits F κ fs) (hF : F.Le F') : Awaits F' κ fs := by
  induction h with
  | nothing => exact .nothing
  | scope _ ih => exact .scope ih
  | closure _ ih => exact .closure ih
  | driving _ hκ hg ih => exact .driving ih hκ hg
  | switching _ ih => exact .switching ih
  | cancelledScope _ ih => exact .cancelledScope ih
  | cancelledClosure _ ih => exact .cancelledClosure ih
  | destroying _ hg ih => exact .destroying ih hg
  | dismantling _ ih => exact .dismantling ih
  | entering _ ih => exact .entering ih
  | resuming _ ih => exact .resuming ih
  | calling _ ih => exact .calling ih
  | pulling _ ih => exact .pulling ih
  | viewing hκ _ ih => exact .viewing hκ ih
  | reporting hκ _ ih => exact .reporting hκ ih
  | holding _ ih => exact .holding ih
  | pullingNamed _ ih => exact .pullingNamed ih
  | endingNamed _ ih => exact .endingNamed ih
  | keeping ha hy hκ hg _ ih => exact .keeping ha hy hκ (fun g h => hF.ended g (hg g h)) ih
  | unwinding hp hκ hg _ ih => exact .unwinding hp hκ hg ih
  | cancelling _ ih => exact .cancelling ih
  | catching ha hκ hg _ ih => exact .catching ha hκ hg ih
  | closing _ hg hc ih => exact .closing ih (hF.known _ hg) hc
  | violating _ hg ih => exact .violating ih (hF.ended _ hg)
  | dropping _ hg hc ih => exact .dropping ih (hF.known _ hg) hc
  | emptying _ hg hc ih => exact .emptying ih (hF.ended _ hg) hc
  | cleaning _ ih => exact .cleaning ih
  | onRelease hκ _ ih => exact .onRelease hκ ih
  | owningHandles _ ih => exact .owningHandles ih
  | owningFibers _ ih => exact .owningFibers ih

theorem chain_nodup (h : Awaits F κ fs) : (chain fs).Nodup := by
  induction h with
  | driving _ _ hg ih => simpa using ⟨hg, ih⟩
  | destroying _ hg ih => simpa using ⟨hg, ih⟩
  | _ => simp_all

/-- The frames under a fiber's part of the stack. -/
theorem stackFiber_iff {scopes : List (Scope C)} {captures : List (HeldGuard C)} :
    Awaits F .code (stackFiber scopes captures fs) ↔ Awaits F .outcome fs := by
  induction scopes with
  | nil =>
    constructor
    · rintro (_ | h)
      assumption
    · exact .closure
  | cons s scopes ih =>
    rw [stackFiber_cons, ← ih]
    constructor
    · rintro (_ | _)
      assumption
    · exact .scope

theorem outcome_cases (h : Awaits F .outcome fs) :
    (∃ g κ rest, fs = .driving g :: rest ∧ Awaits F κ rest ∧ (κ = .progress g ∨ κ = .pursued g) ∧
      g ∉ chain rest) ∨
    ∃ f size rest, fs = .switching f size :: rest ∧ Awaits F .reply rest := by
  cases h with
  | driving hrest hκ hout => exact .inl ⟨_, _, _, rfl, hrest, hκ, hout⟩
  | switching hrest => exact .inr ⟨_, _, _, rfl, hrest⟩
  | viewing hκ | reporting hκ => rcases hκ with hκ | hκ <;> cases hκ

/-- Running code is on the stack of a fiber. -/
theorem code_cases (h : Awaits F .code fs) :
    ∃ scopes captures rest, fs = stackFiber scopes captures rest ∧ Awaits F .outcome rest := by
  generalize hκ : Awaited.code = κ at h
  induction h with
  | @scope s _ _ ih =>
    obtain ⟨scopes, captures, rest, rfl, hrest⟩ := ih rfl
    exact ⟨s :: scopes, captures, rest, rfl, hrest⟩
  | closure h => exact ⟨[], _, _, rfl, h⟩
  | driving _ hκ' => cases hκ
  | viewing hκ' | reporting hκ' => rcases hκ' with rfl | rfl <;> cases hκ
  | _ => cases hκ

/-- Running code that is a producer's is on the stack on top of the switch into that producer. -/
theorem of_producer (h : Awaits F .code fs) (hg : producer? fs = some g) :
    ∃ scopes captures rest κ, fs = stackFiber scopes captures (.driving g :: rest) ∧
      Awaits F κ rest ∧ (κ = .progress g ∨ κ = .pursued g) ∧ g ∉ chain rest := by
  obtain ⟨scopes, captures, rest, rfl⟩ := producer?_eq_some_iff.mp hg
  cases stackFiber_iff.mp h with
  | driving hrest hκ hout => exact ⟨scopes, captures, rest, _, rfl, hrest, hκ, hout⟩

theorem stackFiber_cancel {scopes : List (Scope C)} {captures : List (HeldGuard C)}
    (h : Awaits F .cancel fs) :
    Awaits F .cancel (stackFiber scopes captures fs) := by
  induction scopes with
  | nil => exact .cancelledClosure h
  | cons s scopes ih => exact .cancelledScope ih

end Awaits

end Coroutine
