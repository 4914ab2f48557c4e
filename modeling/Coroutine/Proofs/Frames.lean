import Coroutine.Proofs.Effect.Step
import Coroutine.Proofs.Routine

/-! Frames that stay on the stack. Main statement: a frame that is no part of a fiber's stack stays
where it is, with the frames below it, until control is back on it: with an answer, with a panic, or
because the producer above it yields. -/

namespace Coroutine

variable {C : Type}

/-- Whether the frame can be taken away with a fiber. -/
def Frame.IsPart : Frame C → Prop
  | scope _ | closure _ => True
  | _ => False

theorem suffix_of_stackFiber {f top : Frame C} {fs rest : List (Frame C)} {scopes : List (Scope C)}
    {captures : List (HeldGuard C)} (hf : ¬ f.IsPart)
    (h : f :: fs <:+ stackFiber scopes captures (top :: rest)) : f :: fs <:+ top :: rest := by
  induction scopes with
  | nil =>
    rcases List.suffix_cons_iff.mp h with heq | h
    · cases heq
      exact absurd trivial hf
    · exact h
  | cons s scopes ih =>
    rcases List.suffix_cons_iff.mp h with heq | h
    · cases heq
      exact absurd trivial hf
    · exact ih h

namespace Machine

variable {P : Program C} {w : World C} {f : Frame C} {fs : List (Frame C)} {m m' : Machine C}

theorem suffix_nameIterator (name : String) (source : Option GeneratorId) (a : Answer) :
    fs <:+ (nameIterator w fs name source a).frames := by
  simp only [nameIterator]
  split
  · exact List.suffix_cons _ fs
  · exact List.suffix_refl fs

theorem suffix_nameFiber (name : String) (fiber : Fiber C) (a : Answer) :
    fs <:+ (nameFiber w fs name fiber a).frames := by
  simp only [nameFiber]
  split
  · exact List.suffix_refl fs
  · exact List.suffix_cons _ fs

/-- Control is back on the frame `f`, which is on top of the frames `fs`. -/
inductive Back (P : Program C) (f : Frame C) (fs : List (Frame C)) : Machine C → Prop
  | answers (w : World C) (a : Answer) : Back P f fs ⟨w, .answer a, f :: fs⟩
  | unwinds (w : World C) (u : Unwinding) : Back P f fs ⟨w, .unwind u, f :: fs⟩
  | yields (w : World C) {c : C} {v : Value} {k : Except Exception (Option Value) → C}
      (scopes : List (Scope C)) (captures : List (HeldGuard C)) : P.next c = .yield v k →
      Back P f fs ⟨w, .code c, stackFiber scopes captures (f :: fs)⟩

/-- A frame stays where it is unless control is on it or the code above it yields. -/
theorem suffix_next (hf : ∀ source, f ≠ .scope (.iterator source)) (h : f :: fs <:+ m.frames)
    (hleave : ∀ s c c', f = .scope s → m.control = .code c → P.next c = .leave c' →
      m.frames ≠ f :: fs)
    (hanswer : ∀ a, m.control = .answer a → m.frames ≠ f :: fs)
    (hunwind : ∀ u, m.control = .unwind u → m.frames ≠ f :: fs)
    (hyield : ∀ c v k, m.control = .code c → P.next c ≠ .yield v k) :
    f :: fs <:+ (m.next P).frames := by
  obtain ⟨y, base, hbase, heffect⟩ := effect_next P m
  refine List.IsSuffix.trans ?_ heffect.above
  cases hbase with
  | task | all => exact h
  | top hcontrol hframes =>
    rw [hframes] at h
    refine (List.suffix_cons_iff.mp h).resolve_left fun heq => ?_
    rw [← heq] at hframes
    rcases hcontrol with ⟨a, hcontrol⟩ | ⟨u, hcontrol⟩
    · exact hanswer a hcontrol hframes
    · exact hunwind u hcontrol hframes
  | pulled hcontrol hframes =>
    rw [hframes] at h
    rcases List.suffix_cons_iff.mp h with heq | h
    · exact absurd (hframes.trans heq.symm) (hanswer _ hcontrol)
    · refine (List.suffix_cons_iff.mp h).resolve_left fun heq => ?_
      exact hf _ (List.cons.inj heq).1
  | leaves hcontrol hP hframes =>
    rw [hframes] at h
    refine (List.suffix_cons_iff.mp h).resolve_left fun heq => ?_
    exact hleave _ _ _ (List.cons.inj heq).1 hcontrol hP (hframes.trans heq.symm)
  | yields hcontrol hP => exact absurd hP (hyield _ _ _ hcontrol)

/-- When a producer yields, a frame that is no part of its stack is what it yields to, or stays. -/
theorem suffix_yield {v : Value} {k : Except Exception (Option Value) → C} {c : C}
    (hf : ¬ f.IsPart) (h : f :: fs <:+ m.frames) (hcontrol : m.control = .code c)
    (hP : P.next c = .yield v k) : Back P f fs m ∨ f :: fs <:+ (m.next P).frames := by
  obtain ⟨y, base, hbase, heffect⟩ := effect_next P m
  cases hbase with
  | task ht => cases hcontrol.symm.trans ht
  | all => exact .inr (h.trans heffect.above)
  | top htop =>
    rcases htop with ⟨a, ha⟩ | ⟨u, hu⟩
    · cases hcontrol.symm.trans ha
    · cases hcontrol.symm.trans hu
  | pulled ha => cases hcontrol.symm.trans ha
  | leaves hc hleave =>
    cases hcontrol.symm.trans hc
    cases hP.symm.trans hleave
  | @yields _ _ _ scopes captures _ _ hc _ hframes =>
    obtain ⟨w, control, frames⟩ := m
    obtain rfl : control = _ := hcontrol
    obtain rfl : frames = _ := hframes
    rcases List.suffix_cons_iff.mp (suffix_of_stackFiber hf h) with heq | h
    · cases heq
      exact .inl (.yields w scopes captures hP)
    · exact .inr (h.trans heffect.above)

/-- A frame that is no part of a fiber's stack stays where it is until control is back on it. -/
theorem stays_next (hf : ¬ f.IsPart) (h : f :: fs <:+ m.frames) :
    Back P f fs m ∨ f :: fs <:+ (m.next P).frames := by
  by_cases hyield : ∃ c v k, m.control = .code c ∧ P.next c = .yield v k
  · obtain ⟨c, v, k, hcontrol, hP⟩ := hyield
    exact suffix_yield hf h hcontrol hP
  by_cases htop : m.frames = f :: fs ∧ ((∃ a, m.control = .answer a) ∨ ∃ u, m.control = .unwind u)
  · obtain ⟨w, control, frames⟩ := m
    obtain ⟨rfl, ⟨a, rfl⟩ | ⟨u, rfl⟩⟩ := htop
    · exact .inl (.answers w a)
    · exact .inl (.unwinds w u)
  refine .inr (suffix_next ?_ h ?_ ?_ ?_ ?_)
  · rintro source rfl
    exact hf trivial
  · rintro s _ _ rfl
    exact absurd trivial hf
  · exact fun a hcontrol hframes => htop ⟨hframes, .inl ⟨a, hcontrol⟩⟩
  · exact fun u hcontrol hframes => htop ⟨hframes, .inr ⟨u, hcontrol⟩⟩
  · exact fun c v k hcontrol hP => hyield ⟨c, v, k, hcontrol, hP⟩

/-- A frame that goes has got back what it waits for. -/
theorem Within.leaves {fs' : List (Frame C)} (hf : ¬ f.IsPart) (h : Within P fs' m m')
    (hm : f :: fs <:+ m.frames) (hm' : ¬ f :: fs <:+ m'.frames) :
    ∃ m₁, Within P (f :: fs) m m₁ ∧ Within P fs' m₁ m' ∧ Back P f fs m₁ := by
  induction h with
  | refl m => exact absurd hm hm'
  | @move m m' hfs hback hrest ih =>
    rcases stays_next (P := P) hf hm with hleaves | hstays
    · exact ⟨m, .refl m, .move hfs hback hrest, hleaves⟩
    · obtain ⟨m₁, hbefore, hafter, hleaves⟩ := ih hstays hm'
      by_cases hanswer : ∃ a, m.control = .answer a ∧ m.frames = f :: fs
      · obtain ⟨a, hcontrol, hframes⟩ := hanswer
        obtain ⟨w, control, frames⟩ := m
        obtain rfl : control = _ := hcontrol
        obtain rfl : frames = _ := hframes
        exact ⟨_, .refl _, .move hfs hback hrest, .answers w a⟩
      · exact ⟨m₁, .move hm (fun a ha hframes => hanswer ⟨a, ha, hframes⟩) hbefore, hafter, hleaves⟩

/-- What comes back through a frame comes back to that frame first. -/
theorem Within.back (hf : ¬ f.IsPart) (h : Within P fs m m') (hm : f :: fs <:+ m.frames)
    (hm' : m'.frames = fs) :
    ∃ m₁, Within P (f :: fs) m m₁ ∧ Within P fs m₁ m' ∧ Back P f fs m₁ := by
  refine h.leaves hf hm fun hleft => ?_
  rw [hm'] at hleft
  exact absurd hleft.length_le (Nat.not_succ_le_self _)

end Machine

end Coroutine
