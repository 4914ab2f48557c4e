import Coroutine.Proofs.Effect.Step

/-! The books: what the generators of a world own that a cleanup gets, what became of it so far, and
what the generators look like otherwise. Main statement: a move only changes the books if it makes a
generator, if a producer appends to its payload, or if a payload is released; and what a generator
looks like otherwise is only changed by operations on it and by its own producer. -/

namespace Coroutine

variable {C : Type}

namespace Generator

/-- The generator but for its payload and its handles. -/
def bare (x : Generator C) : Generator C := { x with payload := none, handles := 0 }

/-- The generator but for its handles. -/
def body (x : Generator C) : Generator C := { x with handles := 0 }

end Generator

/-- The accounts of all generators, what became of their payloads, and what the generators in `S`
look like otherwise. -/
structure Books (C : Type) (S : GeneratorId → Prop) where
  accounts : Array (Account C)
  settled : GeneratorId → List Event
  kept : ∀ g, S g → Generator C

variable {S : GeneratorId → Prop}

namespace World

/-- What became of the payload of `g` so far, the latest first. -/
def settled (g : GeneratorId) (w : World C) : List Event := w.history.filter (Event.settles g)

/-- The books of a world. -/
def books (S : GeneratorId → Prop) (w : World C) : Books C S where
  accounts := w.generators.map Generator.account
  settled g := w.settled g
  kept g _ := (w.generator g).bare

variable {w w' : World C} {g : GeneratorId}

theorem size_of_books (h : w'.books S = w.books S) :
    w'.generators.size = w.generators.size := by
  simpa [books] using congrArg (Array.size ∘ Books.accounts) h

theorem account_eq_getD (w : World C) (g : GeneratorId) :
    (w.generator g).account = (w.books S).accounts.getD g (Generator.account .vacant) := by
  simp only [generator, books, Array.getD_eq_getD_getElem?, Array.getElem?_map]
  cases w.generators[g]? <;> rfl

theorem account_of_books (h : w'.books S = w.books S) (g : GeneratorId) :
    (w'.generator g).account = (w.generator g).account := by
  rw [account_eq_getD (S := S), account_eq_getD (S := S), h]

theorem settled_of_books (h : w'.books S = w.books S) (g : GeneratorId) :
    w'.settled g = w.settled g :=
  congrFun (congrArg Books.settled h) g

theorem bare_of_books (h : w'.books S = w.books S) (hg : S g) :
    (w'.generator g).bare = (w.generator g).bare :=
  congrFun (congrFun (congrArg Books.kept h) g) hg

theorem accounts_modify {φ : Generator C → Generator C} (hφ : ∀ x, (φ x).account = x.account) :
    ((w.modify g φ).books S).accounts = (w.books S).accounts := by
  refine Array.ext (by simp [books, modify]) fun i hi hi' => ?_
  simp only [books, modify, Array.getElem_map, Array.getElem_modify]
  split
  · exact hφ _
  · rfl

/-- A change of a generator that is not in `S`. -/
theorem books_modify {φ : Generator C → Generator C} (hg : ¬ S g)
    (hφ : ∀ x, (φ x).account = x.account) : (w.modify g φ).books S = w.books S := by
  have hkept : ((w.modify g φ).books S).kept = (w.books S).kept := by
    funext k hk
    have hne : k ≠ g := by
      rintro rfl
      exact hg hk
    simp only [books, generator_modify_of_ne hne]
  simp only [books, Books.mk.injEq]
  exact ⟨accounts_modify (S := S) hφ, rfl, hkept⟩

/-- A change of the handles of a generator. -/
theorem books_handles (f : Nat → Nat) :
    (w.modify g fun x => { x with handles := f x.handles }).books S = w.books S := by
  have hkept (k : GeneratorId) :
      ((w.modify g fun x => { x with handles := f x.handles }).generator k).bare =
        (w.generator k).bare := by
    rcases w.generator_modify_cases g k fun x => { x with handles := f x.handles } with h | h
    · rw [h]
      rfl
    · rw [h]
  simp only [books, Books.mk.injEq]
  exact ⟨accounts_modify (S := S) fun _ => rfl, rfl, funext fun k => funext fun _ => hkept k⟩

theorem books_note {e : Event} (he : ∀ g, e.settles g = false) :
    (w.note e).books S = w.books S := by
  have hsettled (g : GeneratorId) : (w.note e).settled g = w.settled g := by
    simp [settled, he]
  simp only [books, hsettled]
  rfl

end World

namespace Machine

variable {w : World C} {g : GeneratorId}

/-- Control does not leave the stacks of the generators in `S`, and no operation is being done on
them. -/
structure Apart (P : Program C) (S : GeneratorId → Prop) (m : Machine C) : Prop where
  stays : ∀ g, m.leaves? P = some g → ¬ S g
  operates : ∀ t g, m.control = .task t → t.operates? = some g → ¬ S g

variable {P : Program C} {m : Machine C}

theorem Apart.empty (P : Program C) (m : Machine C) : m.Apart P fun _ => False :=
  ⟨fun _ _ => id, fun _ _ _ _ => id⟩

/-- The edits that enter nothing in the books: no generator is made, and no payload is appended to
or released. -/
theorem Edited.books (h : Edited P m w) (hm : m.Apart P S) (hmake : m.makes? P = none)
    (happend : m.appends? P = none) (hrelease : ∀ g, m.control ≠ .task (.releasePayload g)) :
    w.books S = m.world.books S := by
  induction h with
  | start =>
    obtain ⟨l, hl⟩ := m.credited_eq
    rw [hl]
    rfl
  | @note w e _ htells ih =>
    refine (World.books_note fun g => ?_).trans ih
    exact Bool.eq_false_of_not_eq_true fun hg => hrelease g (htells.settles g hg)
  | @alter w g φ _ hconcerns _ haccount ih =>
    refine (World.books_modify ?_ haccount).trans ih
    cases hconcerns with
    | operates hcontrol ht => exact hm.operates _ g hcontrol ht
    | leaves hleaves => exact hm.stays g hleaves
  | pay _ hpays =>
    cases hpays with
    | releases hcontrol => exact absurd hcontrol (hrelease _)
    | appends hv => cases happend.symm.trans hv
  | retain _ _ ih => exact (World.books_handles (· + 1)).trans ih
  | drop _ _ ih => exact (World.books_handles (· - 1)).trans ih
  | add _ hd => cases hmake.symm.trans hd
  | guards _ ih | handles _ ih | fibers _ ih | iterators _ _ ih | ledger _ _ _ ih => exact ih

/-- The account of a new generator. -/
def openAccount (d : Definition C) : Account C where
  plain := d.context.isNone
  payload := some (d.context.getD [])
  cleanup := some (if d.context.isNone then .discard else .callback d.cleanup d.cleanupPanic)

theorem next_of_makes {d : Definition C} (hmake : m.makes? P = some d) :
    ∃ fs name a, m.next P =
      nameHandle (m.world.addGenerator d).2 fs name (m.world.addGenerator d).1 a := by
  obtain ⟨w, control, fs⟩ := m
  cases control with
  | code c =>
    cases hP : P.next c with
    | holdGenerator name d' c' =>
      obtain rfl : d' = d := by simpa [makes?, hP] using hmake
      refine ⟨.entering (.generator name) c' :: fs, name, .unit, ?_⟩
      simp only [next, hP, grant]
    | _ => simp [makes?, hP] at hmake
  | task t =>
    cases t with
    | step s =>
      cases s with
      | create name d' =>
        obtain rfl : d' = d := by simpa [makes?] using hmake
        exact ⟨fs, name, .reply .ok, rfl⟩
      | _ => simp [makes?] at hmake
    | _ => simp [makes?] at hmake
  | _ => simp [makes?] at hmake

theorem world_next_of_makes {d : Definition C} (hmake : m.makes? P = some d) :
    (m.next P).world.generators = (m.world.addGenerator d).2.generators ∧
      (m.next P).world.history = m.world.history := by
  obtain ⟨fs, name, a, hnext⟩ := next_of_makes hmake
  rw [hnext, nameHandle]
  split <;> simp [World.addGenerator, World.holdGuards_snd, answer, task]

theorem generator_next_of_makes {d : Definition C} (hmake : m.makes? P = some d)
    (g : GeneratorId) :
    (m.next P).world.generator g = (m.world.addGenerator d).2.generator g := by
  simp only [World.generator, (world_next_of_makes hmake).1]

theorem settled_next_of_makes {d : Definition C} (hmake : m.makes? P = some d)
    (g : GeneratorId) : (m.next P).world.settled g = m.world.settled g := by
  simp only [World.settled, (world_next_of_makes hmake).2]

theorem next_of_appends {v : Value} (happend : m.appends? P = some (g, v)) :
    ∃ c, producer? m.frames = some g ∧ m.control = .code c ∧ (m.next P).world =
      m.world.modify g fun x =>
        if x.plain then x else { x with payload := x.payload.map (· ++ [v]) } := by
  obtain ⟨w, control, fs⟩ := m
  cases control with
  | code c =>
    cases hP : P.next c with
    | append v' c' =>
      obtain ⟨hg, rfl⟩ : producer? fs = some g ∧ v' = v := by simpa [appends?, hP] using happend
      refine ⟨c, hg, rfl, ?_⟩
      simp only [next, hP, grant, hg, code]
    | _ => simp [appends?, hP] at happend
  | _ => simp [appends?] at happend

theorem makes?_of_appends {v : Value} (happend : m.appends? P = some (g, v)) :
    m.makes? P = none := by
  obtain ⟨w, control, fs⟩ := m
  cases control with
  | code c =>
    cases hP : P.next c with
    | append => simp [makes?, hP]
    | _ => simp [appends?, hP] at happend
  | _ => simp [appends?] at happend

/-- What the next move enters in the books. -/
inductive Entry (P : Program C) (m : Machine C) : Prop
  | makes {d : Definition C} : m.makes? P = some d → Entry P m
  | appends {g : GeneratorId} {v : Value} :
      m.makes? P = none → m.appends? P = some (g, v) → Entry P m
  | releases {g : GeneratorId} : m.makes? P = none → m.appends? P = none →
      m.control = .task (.releasePayload g) → Entry P m
  | nothing : m.makes? P = none → m.appends? P = none →
      (∀ S, m.Apart P S → (m.next P).world.books S = m.world.books S) → Entry P m

theorem entry (P : Program C) (m : Machine C) : Entry P m := by
  cases hmake : m.makes? P with
  | some d => exact .makes hmake
  | none =>
  cases happend : m.appends? P with
  | some appended => exact .appends hmake happend
  | none =>
  by_cases hrelease : ∃ g, m.control = .task (.releasePayload g)
  · obtain ⟨g, hcontrol⟩ := hrelease
    exact .releases hmake happend hcontrol
  · refine .nothing hmake happend fun S hS => (edited_next P m).books hS hmake happend ?_
    intro g hcontrol
    exact hrelease ⟨g, hcontrol⟩

end Machine

end Coroutine
