import Coroutine.Proofs.Drawing

/-! What iterators hand out. Main statements: a pull goes on item by item, with one call for each item
until the iterator ends; whatever an iterator has been through, it has handed out values, then at most
one failure, then nothing any more. -/

namespace Coroutine

variable {C E : Type}

/-- What an iterator has handed out, by its source, which it has until it has ended: values, then at most
one failure, then nothing any more. -/
inductive Fused : Option GeneratorId → List (Item E) → Prop
  | live (g : GeneratorId) (vs : List Value) : Fused (some g) (vs.map .value)
  | ended (vs : List Value) (e : Option E) (n : Nat) :
      Fused none (vs.map .value ++ (e.map .failed).toList ++ List.replicate n .ended)

/-- What an iterator with a source hands out next, and the source that it has then. -/
inductive Item.Follows : Option GeneratorId → Item E → Option GeneratorId → Prop
  | value (g : GeneratorId) (v : Value) : Follows (some g) (.value v) (some g)
  | failed (g : GeneratorId) (e : E) : Follows (some g) (.failed e) none
  | ended (s : Option GeneratorId) : Follows s .ended none

namespace Fused

variable {s s' : Option GeneratorId} {is : List (Item E)} {i : Item E}

theorem nil (s : Option GeneratorId) : Fused s ([] : List (Item E)) := by
  cases s with
  | none => exact .ended [] none 0
  | some g => exact .live g []

theorem follows (h : Fused s is) (hi : i.Follows s s') : Fused s' (is ++ [i]) := by
  cases hi with
  | value g v =>
    cases h with
    | live _ vs =>
      have hvalues : vs.map Item.value ++ [.value v] = ((vs ++ [v]).map .value : List (Item E)) := by
        simp
      rw [hvalues]
      exact .live g _
  | failed g e =>
    cases h with
    | live _ vs => simpa using Fused.ended vs (some e) 0
  | ended s =>
    cases h with
    | live _ vs => simpa using Fused.ended (E := E) vs none 1
    | ended vs e n =>
      rw [List.append_assoc, ← List.replicate_succ']
      exact .ended vs e (n + 1)

/-- An iterator ends without handing out what it has ended with if there is a panic. -/
theorem panicked (h : Fused s is) : Fused none is := by
  cases h with
  | live _ vs => simpa using Fused.ended (E := E) vs none 0
  | ended vs e n => exact .ended vs e n

end Fused

namespace Machine

/-- An iterator hands out an item when it is pulled, on top of frames that wait for the call and for the
end of its handle: its source and the world before, the item, and its source and the world after. -/
inductive Hands (P : Program C) (onCall : GeneratorId → List (Frame C))
    (onEnd : Item OpError → List (Frame C)) :
    Option GeneratorId → World C → Item OpError → Option GeneratorId → World C → Prop
  /-- It has ended before. -/
  | nothing (w : World C) : Hands P onCall onEnd none w .ended none w
  | value {g : GeneratorId} {w w' : World C} {v : Value} :
      Draw.Ends P g ⟨w, onCall g, some (.ok (.yielded v))⟩
        ⟨w', .answer (.progress (.ok (.yielded v))), onCall g⟩ →
      Hands P onCall onEnd (some g) w (.value v) (some g) w'
  /-- It ends, and drops its handle. -/
  | last {g : GeneratorId} {w w₁ w' : World C} {r : Except OpError (Progress Value Value)} :
      Draw.Ends P g ⟨w, onCall g, some r⟩ ⟨w₁, .answer (.progress r), onCall g⟩ →
      (∀ v, itemOf r ≠ .value v) →
      Within P (onEnd (itemOf r)) ⟨w₁, .task (.dropHandle g), onEnd (itemOf r)⟩
        ⟨w', .answer .unit, onEnd (itemOf r)⟩ →
      Hands P onCall onEnd (some g) w (itemOf r) none w'

/-- A panic leaves an iterator that is pulled: its source and the world before, and its source, the world
and the panic after. -/
inductive Breaks (P : Program C) (onCall : GeneratorId → List (Frame C))
    (onEnd : Item OpError → List (Frame C)) :
    Option GeneratorId → World C → Option GeneratorId → World C → Unwinding → Prop
  /-- It leaves the call. -/
  | panicked {g : GeneratorId} {w w' : World C} {u : Unwinding} :
      Draw.Ends P g ⟨w, onCall g, none⟩ ⟨w', .unwind u, onCall g⟩ →
      Breaks P onCall onEnd (some g) w (some g) w' u
  /-- It leaves the end of the handle. -/
  | lost {g : GeneratorId} {w w₁ w' : World C} {r : Except OpError (Progress Value Value)}
      {u : Unwinding} : Draw.Ends P g ⟨w, onCall g, some r⟩ ⟨w₁, .answer (.progress r), onCall g⟩ →
      (∀ v, itemOf r ≠ .value v) →
      Within P (onEnd (itemOf r)) ⟨w₁, .task (.dropHandle g), onEnd (itemOf r)⟩
        ⟨w', .unwind u, onEnd (itemOf r)⟩ →
      Breaks P onCall onEnd (some g) w none w' u

/-- A pull of a named iterator that goes on: the world, the source of the iterator, the number of items
that are still asked for, and the items that it has handed out, the latest first. -/
structure Pull (C : Type) where
  world : World C
  source : Option GeneratorId
  left : Nat
  items : List (Item ErrorReport)

namespace Pull

/-- The state in which the pull goes on. -/
def machine (it : String) (fs : List (Frame C)) (p : Pull C) : Machine C :=
  pullNamed p.world fs it p.source p.left p.items

/-- What waits for the call. -/
def waits (it : String) (fs : List (Frame C)) (left : Nat) (items : List (Item ErrorReport))
    (g : GeneratorId) : List (Frame C) :=
  .pullingNamed it g left items :: fs

/-- What waits for the end of the handle. -/
def ends (it : String) (fs : List (Frame C)) (left : Nat) (items : List (Item ErrorReport))
    (i : Item OpError) : List (Frame C) :=
  .endingNamed it left items i :: fs

/-- The iterator hands out an item, which is reported. -/
inductive Next (P : Program C) (it : String) (fs : List (Frame C)) : Pull C → Pull C → Prop
  | hands {source source' : Option GeneratorId} {i : Item OpError} {w w' : World C} {left : Nat}
      {items : List (Item ErrorReport)} :
      Hands P (waits it fs left items) (ends it fs left items) source w i source' w' →
      Next P it fs ⟨w, source, left + 1, items⟩
        ⟨(reportItem w' i).2, source', left, (reportItem w' i).1 :: items⟩

/-- The pull goes on item by item. -/
inductive Goes (P : Program C) (it : String) (fs : List (Frame C)) : Pull C → Pull C → Prop
  | refl (p : Pull C) : Goes P it fs p p
  | next {p p₁ p' : Pull C} : Next P it fs p p₁ → Goes P it fs p₁ p' → Goes P it fs p p'

/-- The iterator gets its name again, which it has not while it is pulled: the pull as it is over, and
the state then. -/
inductive Renames (P : Program C) (it : String) (fs : List (Frame C)) (p : Pull C) :
    Pull C → Machine C → Prop
  | replied {p' : Pull C} : Goes P it fs p p' → p'.left = 0 →
      Renames P it fs p p'
        (nameIterator p'.world fs it p'.source (.reply (.items p'.items.reverse)))
  | broken {w w' : World C} {s s' : Option GeneratorId} {left : Nat}
      {items : List (Item ErrorReport)} {u : Unwinding} :
      Goes P it fs p ⟨w, s, left + 1, items⟩ →
      Breaks P (waits it fs left items) (ends it fs left items) s w s' w' u →
      Renames P it fs p ⟨w', s', left, items⟩
        (nameIterator w' (.unwinding u :: fs) it s' .unit)

/-- How a pull is over. -/
inductive Concludes (P : Program C) (it : String) (fs : List (Frame C)) (p : Pull C) :
    Machine C → Prop
  /-- All the items are replied that were asked for. -/
  | replied {p' : Pull C} {w : World C} : Goes P it fs p p' → p'.left = 0 →
      Within P fs (nameIterator p'.world fs it p'.source (.reply (.items p'.items.reverse)))
        ⟨w, .answer (.reply (.items p'.items.reverse)), fs⟩ →
      Concludes P it fs p ⟨w, .answer (.reply (.items p'.items.reverse)), fs⟩
  | left {p' : Pull C} {m : Machine C} {w : World C} {u : Unwinding} : Renames P it fs p p' m →
      Within P fs m ⟨w, .unwind u, fs⟩ → Concludes P it fs p ⟨w, .unwind u, fs⟩

end Pull

/-- From `m` on an iterator that is called `it` is pulled now and then, and is neither dropped nor gives
its name to another one: what it has handed out, and the source that it has. -/
inductive Iterated (P : Program C) (it : String) (m : Machine C) :
    List (Item ErrorReport) → Option GeneratorId → Machine C → Prop
  | named {s : Option GeneratorId} : m.world.iterators.find? it = some s → Iterated P it m [] s m
  | move {is : List (Item ErrorReport)} {s : Option GeneratorId} {m' : Machine C} :
      Iterated P it m is s m' → m'.iterator? ≠ some it → Iterated P it m is s (m'.next P)
  | again {is : List (Item ErrorReport)} {s : Option GeneratorId} {m' : Machine C} (step : Step C) :
      Iterated P it m is s m' → m'.Completed →
      Iterated P it m is s ⟨m'.world, .task (.step step), []⟩
  | pull {is : List (Item ErrorReport)} {s : Option GeneratorId} {w : World C}
      {fs : List (Frame C)} {n : Nat} {p : Pull C} {m' : Machine C} :
      Iterated P it m is s ⟨w, .task (.step (.pull it n)), fs⟩ →
      Pull.Renames P it fs ⟨{ w with iterators := w.iterators.erase it }, s, n, []⟩ p m' →
      Iterated P it m (is ++ p.items.reverse) p.source m'

/-- What waits for the call when code pulls the iterator on top of its stack. -/
def pulls (fs : List (Frame C)) (k : Item OpError → C) (g : GeneratorId) : List (Frame C) :=
  .pulling g k :: .scope (.iterator (some g)) :: fs

/-- What waits for the end of the handle then. -/
def pulled (fs : List (Frame C)) (k : Item OpError → C) (i : Item OpError) : List (Frame C) :=
  .resuming (k i) :: .scope (.iterator none) :: fs

/-- What has become of a pull of the iterator on top of the stack of the running code. -/
inductive Pulled (P : Program C) (fs : List (Frame C)) (k : Item OpError → C)
    (s : Option GeneratorId) (w : World C) (m : Machine C) : Prop
  | calls {g : GeneratorId} : pulls fs k g <:+ m.frames → Pulled P fs k s w m
  | drops {i : Item OpError} : pulled fs k i <:+ m.frames → Pulled P fs k s w m
  /-- The code goes on with the item. -/
  | hands {w' : World C} {i : Item OpError} {s' : Option GeneratorId} :
      Hands P (pulls fs k) (pulled fs k) s w i s' w' →
      Within P fs ⟨w', .code (k i), .scope (.iterator s') :: fs⟩ m → Pulled P fs k s w m
  | breaks {w' : World C} {s' : Option GeneratorId} {u : Unwinding} :
      Breaks P (pulls fs k) (pulled fs k) s w s' w' u →
      Within P fs ⟨w', .unwind u, .scope (.iterator s') :: fs⟩ m → Pulled P fs k s w m

/-- An iterator on the stack of running code is pulled now and then: the frames below it, what it has
handed out, and the source that it has. -/
inductive Scoped (P : Program C) :
    List (Frame C) → List (Item OpError) → Option GeneratorId → Machine C → Prop
  | held (w : World C) (c : C) (s : Option GeneratorId) (fs : List (Frame C)) :
      Scoped P fs [] s ⟨w, .code c, .scope (.iterator s) :: fs⟩
  | move {fs : List (Frame C)} {is : List (Item OpError)} {s : Option GeneratorId}
      {m : Machine C} : Scoped P fs is s m →
      (∀ c k, m.control = .code c → m.frames = .scope (.iterator s) :: fs → P.next c ≠ .pull k) →
      .scope (.iterator s) :: fs <:+ (m.next P).frames → Scoped P fs is s (m.next P)
  | pull {fs : List (Frame C)} {is : List (Item OpError)} {s s' : Option GeneratorId}
      {w w' : World C} {c : C} {k : Item OpError → C} {i : Item OpError} :
      Scoped P fs is s ⟨w, .code c, .scope (.iterator s) :: fs⟩ → P.next c = .pull k →
      Hands P (pulls fs k) (pulled fs k) s w i s' w' →
      Scoped P fs (is ++ [i]) s' ⟨w', .code (k i), .scope (.iterator s') :: fs⟩
  /-- The fiber that the code runs on is suspended, and its stack gets on top of other frames. -/
  | wakes {is : List (Item OpError)} {s : Option GeneratorId} {m m' : Machine C}
      {above below : List (Scope C)} {captures : List (HeldGuard C)} {fs fs' : List (Frame C)} {c : C}
      {v : Value} {k : Except Exception (Option Value) → C} :
      Scoped P (stackFiber below captures fs) is s m →
      m.control = .code c → P.next c = .yield v k →
      m.frames = stackFiber (above ++ .iterator s :: below) captures fs → Later P m m' →
      m'.frames = stackFiber (above ++ .iterator s :: below) captures fs' →
      Scoped P (stackFiber below captures fs') is s m'

variable {P : Program C} {g : GeneratorId} {w w' w₁ : World C} {fs fs' : List (Frame C)}
  {f : Frame C} {m m' m₁ : Machine C} {it : String} {s s' : Option GeneratorId} {i : Item OpError}
  {p p' p₁ : Pull C} {onCall : GeneratorId → List (Frame C)} {u : Unwinding}
  {onEnd : Item OpError → List (Frame C)} {c : C} {k : Item OpError → C}

/-! ### Items -/

theorem Hands.follows (h : Hands P onCall onEnd s w i s' w') : i.Follows s s' := by
  cases h with
  | nothing => exact .ended none
  | value => exact .value ..
  | last _ hlast =>
    generalize itemOf _ = i at hlast
    cases i with
    | value v => exact absurd rfl (hlast v)
    | failed e => exact .failed _ e
    | ended => exact .ended _

theorem follows_report (h : i.Follows s s') (w : World C) : (reportItem w i).1.Follows s s' := by
  cases h with
  | value => exact .value ..
  | failed => exact .failed ..
  | ended _ => exact .ended _

theorem Pull.Goes.fused {is : List (Item ErrorReport)} (h : Pull.Goes P it fs p p')
    (hp : Fused p.source (is ++ p.items.reverse)) : Fused p'.source (is ++ p'.items.reverse) := by
  induction h with
  | refl => exact hp
  | next hnext _ ih =>
    refine ih ?_
    cases hnext with
    | hands hhands =>
      rw [List.reverse_cons, ← List.append_assoc]
      exact hp.follows (follows_report hhands.follows _)

theorem Pull.Renames.fused {is : List (Item ErrorReport)} (h : Pull.Renames P it fs p p' m)
    (hp : Fused p.source (is ++ p.items.reverse)) : Fused p'.source (is ++ p'.items.reverse) := by
  cases h with
  | replied hgoes => exact hgoes.fused hp
  | broken hgoes hbreaks =>
    have hbroken := hgoes.fused hp
    cases hbreaks with
    | panicked => exact hbroken
    | lost => exact hbroken.panicked

/-- Whatever it has been through, an iterator has handed out values, then at most one failure, then
nothing any more. -/
theorem Iterated.fused {is : List (Item ErrorReport)} (h : Iterated P it m is s m') : Fused s is := by
  induction h with
  | named => exact .nil _
  | move _ _ ih | again _ _ _ ih => exact ih
  | pull _ hpull ih => exact hpull.fused (by simpa using ih)

theorem Scoped.fused {is : List (Item OpError)} (h : Scoped P fs is s m) : Fused s is := by
  induction h with
  | held => exact .nil _
  | move _ _ _ ih | wakes _ _ _ _ _ _ ih => exact ih
  | pull _ _ hhands ih => exact ih.follows hhands.follows

theorem find?_nameIterator_self (a : Answer) :
    (nameIterator w fs it s a).world.iterators.find? it = some s := by
  simp only [nameIterator]
  split <;> exact (Table.find?_insert ..).trans (if_pos rfl)

/-- No edit that a move can make takes or gives the name of an iterator that it does not pull. -/
theorem Edited.find? (h : Edited P m w) (hit : m.iterator? ≠ some it) :
    w.iterators.find? it = m.world.iterators.find? it := by
  induction h with
  | start =>
    obtain ⟨l, hl⟩ := m.credited_eq
    rw [hl]
  | iterators _ hothers ih => exact (hothers it hit).trans ih
  | add _ _ ih => simpa [World.addGenerator, World.holdGuards_snd] using ih
  | note _ _ ih | alter _ _ _ _ ih | pay _ _ _ ih | retain _ _ ih | drop _ _ ih | guards _ ih
  | handles _ ih | fibers _ ih | ledger _ _ _ ih => exact ih

/-- It keeps its name and its source in between. -/
theorem Iterated.find? {is : List (Item ErrorReport)} (h : Iterated P it m is s m') :
    m'.world.iterators.find? it = some s := by
  induction h with
  | named hs => exact hs
  | move _ hit ih => exact ((edited_next P _).find? hit).trans ih
  | again _ _ _ ih => exact ih
  | pull _ hpull => cases hpull <;> exact find?_nameIterator_self _

/-! ### Pulls -/

theorem itemOf_eq_value {r : Except OpError (Progress Value Value)} {v : Value} :
    itemOf r = .value v ↔ r = .ok (.yielded v) := by
  refine ⟨fun h => ?_, fun h => by rw [h]; rfl⟩
  unfold itemOf at h
  split at h <;> cases h
  rfl

/-- What is not a value is the last that a named iterator hands out. -/
theorem finishNamedPull_last {left : Nat} {items : List (Item ErrorReport)}
    (hi : ∀ v, i ≠ .value v) : finishNamedPull w fs it g left items i =
      ⟨w, .task (.dropHandle g), Pull.ends it fs left items i⟩ := by
  cases i with
  | value v => exact absurd rfl (hi v)
  | failed | ended => rfl

/-- So it is for an iterator on the stack of the running code. -/
theorem finishPull_last (hi : ∀ v, i ≠ .value v) :
    finishPull w (.scope (.iterator s) :: fs) g k i = ⟨w, .task (.dropHandle g), pulled fs k i⟩ := by
  cases i with
  | value v => exact absurd rfl (hi v)
  | failed | ended => rfl

/-- A call that is not waited for any more has come back, or a panic has left it. -/
theorem draw_of_leaves (hm : Reachable P ⟨w, .task (.resume g none), f :: fs⟩) (hf : ¬ f.IsPart)
    (hout : ∀ F : Fates, ¬ Awaits F .outcome (f :: fs))
    (h : Within P fs' ⟨w, .task (.resume g none), f :: fs⟩ m') (hm' : ¬ f :: fs <:+ m'.frames) :
    (∃ w₁ r, Draw.Ends P g ⟨w, f :: fs, some r⟩ ⟨w₁, .answer (.progress r), f :: fs⟩ ∧
        Within P fs' (deliver w₁ (.progress r) (f :: fs)) m') ∨
      ∃ w₁ u, Draw.Ends P g ⟨w, f :: fs, none⟩ ⟨w₁, .unwind u, f :: fs⟩ ∧
        Within P fs' (leave w₁ u (f :: fs)) m' := by
  obtain ⟨m₁, hbefore, hover, hafter⟩ := over_of_leaves hm hf hout rfl h hm'
  cases hover with
  | answered w₁ b =>
    obtain ⟨r, rfl⟩ := progress_of_resume hm hbefore
    exact .inl ⟨w₁, r, ⟨hbefore, .answered w₁ _, rfl⟩, hafter⟩
  | unwound w₁ u => exact .inr ⟨w₁, u, ⟨hbefore, .unwound w₁ u, rfl⟩, hafter⟩

/-! ### Pulls of named iterators -/

namespace Pull

/-- Where a named iterator ends, it drops its handle next. -/
theorem within_ends {left : Nat} {items : List (Item ErrorReport)}
    {r : Except OpError (Progress Value Value)}
    (h : Draw.Ends P g ⟨w, waits it fs left items g, some r⟩
      ⟨w₁, .answer (.progress r), waits it fs left items g⟩)
    (hlast : ∀ v, itemOf r ≠ .value v) :
    Within P fs ⟨w, .task (.resume g none), waits it fs left items g⟩
      ⟨w₁, .task (.dropHandle g), ends it fs left items (itemOf r)⟩ := by
  have hended : Within P fs ⟨w₁, .answer (.progress r), waits it fs left items g⟩
      (finishNamedPull w₁ fs it g left items (itemOf r)) := .next_of_cons (List.suffix_refl _)
  rw [finishNamedPull_last hlast] at hended
  exact h.within.under.trans hended

theorem Next.within (h : Next P it fs p p') : Within P fs (p.machine it fs) (p'.machine it fs) := by
  cases h with
  | @hands source source' i w w' left items hhands =>
  cases hhands with
  | nothing =>
    have hsame : machine it fs ⟨w, none, left + 1, items⟩ =
        machine it fs ⟨w, none, left, .ended :: items⟩ := by
      cases left <;> simp [machine, pullNamed, List.replicate_succ]
    rw [hsame]
    exact .refl _
  | @value g _ _ v hd =>
    have hback : Within P fs ⟨w', .answer (.progress (.ok (.yielded v))), waits it fs left items g⟩
        (pullNamed w' fs it (some g) left (.value v :: items)) := .next_of_cons (List.suffix_refl _)
    exact hd.within.under.trans hback
  | @last g _ w₁ _ r hd hlast hdrop =>
    have hback : Within P fs ⟨w', .answer .unit, ends it fs left items (itemOf r)⟩
        (pullNamed (reportItem w' (itemOf r)).2 fs it none left
          ((reportItem w' (itemOf r)).1 :: items)) := .next_of_cons (List.suffix_refl _)
    exact (within_ends hd hlast).trans (hdrop.under.trans hback)

theorem Goes.within (h : Goes P it fs p p') :
    Within P fs (p.machine it fs) (p'.machine it fs) := by
  induction h with
  | refl p => exact .refl _
  | next hnext _ ih => exact hnext.within.trans ih

theorem Renames.within (h : Renames P it fs p p' m) : Within P fs (p.machine it fs) m := by
  cases h with
  | replied hgoes hleft =>
    have hnamed : p'.machine it fs =
        nameIterator p'.world fs it p'.source (.reply (.items p'.items.reverse)) := by
      simp [machine, pullNamed, hleft]
    exact hnamed ▸ hgoes.within
  | @broken w w' _ _ left items u hgoes hbreaks =>
    refine hgoes.within.trans ?_
    cases hbreaks with
    | @panicked g _ _ _ hd =>
      have hback : Within P fs ⟨w', .unwind u, waits it fs left items g⟩
          (nameIterator w' (.unwinding u :: fs) it (some g) .unit) :=
        .next_of_cons (List.suffix_refl _)
      exact hd.within.under.trans hback
    | @lost g _ w₁ _ r _ hd hlast hdrop =>
      have hback : Within P fs ⟨w', .unwind u, ends it fs left items (itemOf r)⟩
          (nameIterator w' (.unwinding u :: fs) it none .unit) := .next_of_cons (List.suffix_refl _)
      exact (within_ends hd hlast).trans (hdrop.under.trans hback)

theorem Renames.after (hnext : Next P it fs p p₁) (h : Renames P it fs p₁ p' m) :
    Renames P it fs p p' m := by
  cases h with
  | replied hgoes hleft => exact .replied (.next hnext hgoes) hleft
  | broken hgoes hbreaks => exact .broken (.next hnext hgoes) hbreaks

theorem Concludes.after (hnext : Next P it fs p p₁) (h : Concludes P it fs p₁ m) :
    Concludes P it fs p m := by
  cases h with
  | replied hgoes hleft hnamed => exact .replied (.next hnext hgoes) hleft hnamed
  | left hrenames hleft => exact .left (hrenames.after hnext) hleft

end Pull

/-- What comes back to a kept answer comes back with it, unless a panic leaves it. -/
theorem over_of_keeping {a : Answer} (hm : Reachable P m) (hframes : m.frames = .keeping a :: fs)
    (h : Within P fs m m') (hm' : m'.frames = fs) :
    (∃ w', m' = ⟨w', .answer a, fs⟩) ∨ ∃ w' u, m' = ⟨w', .unwind u, fs⟩ := by
  obtain ⟨w, control, _⟩ := m
  obtain rfl := hframes
  obtain ⟨m₁, -, hback, hafter⟩ := exists_over hm id (fun _ h => by cases h) rfl h hm'
  cases hback with
  | answered w₁ b =>
    have hafter : Within P fs ⟨w₁, .answer a, fs⟩ m' := hafter
    exact .inl ⟨w₁, hafter.eq_answer⟩
  | unwound w₁ u =>
    have hleft : leave w₁ u (.keeping a :: fs) = ⟨w₁, .unwind u, fs⟩ := by cases u <;> rfl
    have hafter : Within P fs (leave w₁ u (.keeping a :: fs)) m' := hafter
    rw [hleft] at hafter
    exact .inr ⟨w₁, u, hafter.eq_of_unwind hm'⟩

/-- What is released while a panic goes on does not stop the panic. -/
theorem unwound_of_unwinding (hm : Reachable P m) (hsuffix : .unwinding u :: fs <:+ m.frames)
    (h : Within P fs m m') (hover : Over ⟨w, .stuck, fs⟩ m') : ∃ w', m' = ⟨w', .unwind u, fs⟩ := by
  obtain ⟨m₁, hbefore, hafter, hback⟩ := h.back id hsuffix hover.frames
  have hmoved : Within P fs (m₁.next P) m' :=
    hafter.of_ne fun heq => hback.frames_ne ((congrArg Machine.frames heq).trans hover.frames)
  cases hback with
  | answers w₁ b =>
    have hmoved : Within P fs ⟨w₁, .unwind u, fs⟩ m' := hmoved
    exact ⟨w₁, hmoved.eq_of_unwind hover.frames⟩
  | unwinds w₁ u' =>
    have hmoved : Within P fs ⟨w₁, .aborted, fs⟩ m' := hmoved
    cases hmoved.eq_of_aborted
    cases hover
  | yields w₁ scopes captures _ =>
    exact absurd rfl (not_yields (hm.leads hbefore.leads) fun _ h => by cases h)

/-- An iterator that is named comes back with the answer, unless the drop of the iterator panics that
has had the name. -/
theorem over_of_nameIterator {a : Answer} (hm : Reachable P (nameIterator w fs it s a))
    (h : Within P fs (nameIterator w fs it s a) m') (hm' : m'.frames = fs) :
    (∃ w', m' = ⟨w', .answer a, fs⟩) ∨ ∃ w' u, m' = ⟨w', .unwind u, fs⟩ := by
  simp only [nameIterator] at hm h
  split at h
  · next old hold =>
    rw [hold] at hm
    exact over_of_keeping hm rfl h hm'
  · exact .inl ⟨_, h.eq_answer⟩

/-- A pull of an iterator that has a generator goes on with the next item, or a panic leaves it. -/
theorem next_or_breaks {left : Nat} {items : List (Item ErrorReport)}
    (hm : Reachable P (Pull.machine it fs ⟨w, some g, left + 1, items⟩))
    (h : Within P fs (Pull.machine it fs ⟨w, some g, left + 1, items⟩) m') (hm' : m'.frames = fs) :
    (∃ p, Pull.Next P it fs ⟨w, some g, left + 1, items⟩ p ∧ p.left = left ∧
        Within P fs (p.machine it fs) m') ∨
      ∃ s w' u, Breaks P (Pull.waits it fs left items) (Pull.ends it fs left items) (some g) w s w' u ∧
        Within P fs (nameIterator w' (.unwinding u :: fs) it s .unit) m' := by
  have hgone {f : Frame C} : ¬ f :: fs <:+ m'.frames := hm' ▸ not_suffix_self
  rcases draw_of_leaves hm id (fun _ h => by cases h) h hgone with
    ⟨w₁, r, hd, hafter⟩ | ⟨w₁, u, hd, hafter⟩
  case inr => exact .inr ⟨_, w₁, u, .panicked hd, hafter⟩
  by_cases hlast : ∀ v, itemOf r ≠ .value v
  case neg =>
    obtain ⟨v, hv⟩ := not_forall_not.mp hlast
    obtain rfl := itemOf_eq_value.mp hv
    exact .inl ⟨_, .hands (.value hd), rfl, hafter⟩
  have hafter : Within P fs (finishNamedPull w₁ fs it g left items (itemOf r)) m' := hafter
  rw [finishNamedPull_last hlast] at hafter
  have hm₁ := hm.leads (Pull.within_ends hd hlast).leads
  obtain ⟨m₂, hdrop, hover, hafter⟩ := over_of_leaves hm₁ id (fun _ h => by cases h) rfl hafter hgone
  cases hover with
  | unwound w₂ u => exact .inr ⟨none, w₂, u, .lost hd hlast hdrop, hafter⟩
  | answered w₂ b =>
    obtain ⟨κ, hκ, hunit, -⟩ := (hm₁.leads hdrop.leads).sound.order
    cases hκ with
    | endingNamed _ =>
    cases b with
    | progress _ | outcome _ | closed _ | reply _ => exact hunit.elim
    | unit => exact .inl ⟨_, .hands (.last hd hlast hdrop), rfl, hafter⟩

/-- A pull that is over has gone on item by item until the iterator got its name again. -/
theorem concludes_of_over (hm : Reachable P (p.machine it fs))
    (h : Within P fs (p.machine it fs) m') (hover : Over ⟨w, .stuck, fs⟩ m') :
    p.Concludes P it fs m' := by
  have hm' : m'.frames = fs := hover.frames
  obtain ⟨w₀, s, left, items⟩ := p
  induction left generalizing w₀ s items with
  | zero =>
    have hnamed : Pull.machine it fs ⟨w₀, s, 0, items⟩ =
        nameIterator w₀ fs it s (.reply (.items items.reverse)) := by
      simp [Pull.machine, pullNamed]
    rw [hnamed] at hm h
    rcases over_of_nameIterator hm h hm' with ⟨w', rfl⟩ | ⟨w', u, rfl⟩
    · exact .replied (.refl ⟨w₀, s, 0, items⟩) rfl h
    · exact .left (.replied (.refl _) rfl) h
  | succ left ih =>
    have hnext {p₁ : Pull C} (hnext : Pull.Next P it fs ⟨w₀, s, left + 1, items⟩ p₁)
        (hleft : p₁.left = left) (hrest : Within P fs (p₁.machine it fs) m') :
        Pull.Concludes P it fs ⟨w₀, s, left + 1, items⟩ m' := by
      refine .after hnext ?_
      obtain ⟨w₁, s₁, left₁, items₁⟩ := p₁
      obtain rfl : left₁ = left := hleft
      exact ih w₁ s₁ items₁ (hm.leads hnext.within.leads) hrest
    cases s with
    | none =>
      have hsame : Pull.machine it fs ⟨w₀, none, left + 1, items⟩ =
          Pull.machine it fs ⟨w₀, none, left, .ended :: items⟩ := by
        cases left <;> simp [Pull.machine, pullNamed, List.replicate_succ]
      exact hnext (.hands (.nothing w₀)) rfl (hsame ▸ h)
    | some g =>
      rcases next_or_breaks hm h hm' with ⟨p₁, hgoes, hleft, hrest⟩ | ⟨s', w', u, hbreaks, hrest⟩
      · exact hnext hgoes hleft hrest
      · have hrenames := Pull.Renames.broken (.refl _) hbreaks
        obtain ⟨w₁, rfl⟩ := unwound_of_unwinding (hm.leads hrenames.within.leads)
          (suffix_nameIterator ..) hrest hover
        exact .left hrenames hrest

/-! ### Pulls of iterators on the stack -/

/-- An iterator that has ended waits for the end of its handle, and the code goes on with its last item
then, unless a panic leaves it. -/
theorem pulled_of_last {r : Except OpError (Progress Value Value)}
    (hm : Reachable P ⟨w₁, .task (.dropHandle g), pulled fs k (itemOf r)⟩)
    (hd : Draw.Ends P g ⟨w, pulls fs k g, some r⟩ ⟨w₁, .answer (.progress r), pulls fs k g⟩)
    (hlast : ∀ v, itemOf r ≠ .value v)
    (h : Within P fs ⟨w₁, .task (.dropHandle g), pulled fs k (itemOf r)⟩ m') :
    Pulled P fs k (some g) w m' := by
  by_cases hdrops : pulled fs k (itemOf r) <:+ m'.frames
  · exact .drops hdrops
  obtain ⟨m₂, hdrop, hover, hafter⟩ := over_of_leaves hm id (fun _ h => by cases h) rfl h hdrops
  cases hover with
  | unwound w₂ u =>
    have hleft : leave w₂ u (pulled fs k (itemOf r)) =
        ⟨w₂, .unwind u, .scope (.iterator none) :: fs⟩ := by
      cases u <;> rfl
    have hafter : Within P fs (leave w₂ u (pulled fs k (itemOf r))) m' := hafter
    exact .breaks (.lost hd hlast hdrop) (hleft ▸ hafter)
  | answered w₂ b =>
    obtain ⟨κ, hκ, hunit, -⟩ := (hm.leads hdrop.leads).sound.order
    cases hκ with
    | resuming _ =>
    cases b with
    | progress _ | outcome _ | closed _ | reply _ => exact hunit.elim
    | unit => exact .hands (.last hd hlast hdrop) hafter

/-- A pull of the iterator on top of the stack of the running code waits, hands out an item, or is left
by a panic. -/
theorem pulled_of_within (hm : Reachable P ⟨w, .code c, .scope (.iterator s) :: fs⟩)
    (hP : P.next c = .pull k)
    (h : Within P fs (next P ⟨w, .code c, .scope (.iterator s) :: fs⟩) m') :
    Pulled P fs k s w m' := by
  cases s with
  | none =>
    have hnext : next P ⟨w, .code c, .scope (.iterator none) :: fs⟩ =
        ⟨w, .code (k .ended), .scope (.iterator none) :: fs⟩ := by
      simp [next, hP, grant, code]
    exact .hands (.nothing w) (hnext ▸ h)
  | some g =>
    have hnext : next P ⟨w, .code c, .scope (.iterator (some g)) :: fs⟩ =
        ⟨w, .task (.resume g none), pulls fs k g⟩ := by
      simp [next, hP, grant, task, pulls]
    rw [hnext] at h
    have hm₁ : Reachable P ⟨w, .task (.resume g none), pulls fs k g⟩ := hnext ▸ hm.move
    by_cases hwaits : pulls fs k g <:+ m'.frames
    · exact .calls hwaits
    rcases draw_of_leaves hm₁ id (fun _ h => by cases h) h hwaits with
      ⟨w₁, r, hd, hafter⟩ | ⟨w₁, u, hd, hafter⟩
    case inr =>
      have hleft : leave w₁ u (pulls fs k g) = ⟨w₁, .unwind u, .scope (.iterator (some g)) :: fs⟩ := by
        cases u <;> rfl
      exact .breaks (.panicked hd) (hleft ▸ hafter)
    by_cases hlast : ∀ v, itemOf r ≠ .value v
    · have hfinish : next P ⟨w₁, .answer (.progress r), pulls fs k g⟩ =
          ⟨w₁, .task (.dropHandle g), pulled fs k (itemOf r)⟩ := finishPull_last hlast
      have hafter : Within P fs (next P ⟨w₁, .answer (.progress r), pulls fs k g⟩) m' := hafter
      rw [hfinish] at hafter
      exact pulled_of_last (hfinish ▸ (hm₁.leads hd.within.leads).move) hd hlast hafter
    · obtain ⟨v, hv⟩ := not_forall_not.mp hlast
      obtain rfl := itemOf_eq_value.mp hv
      exact .hands (.value hd) hafter

end Machine

end Coroutine
