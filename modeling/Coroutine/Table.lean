/-! Tables from names to what they name, sorted by name, so that the lowest name comes first. Main
statements: what a name names after an insertion and after an erasure. -/

namespace Coroutine

/-- Names with what they name, sorted by name. -/
structure Table (α : Type) where
  entries : List (String × α)
  sorted : entries.Pairwise fun a b => a.1 < b.1

namespace Table

variable {α : Type}

def empty : Table α := ⟨[], .nil⟩

instance : EmptyCollection (Table α) := ⟨empty⟩

instance : Inhabited (Table α) := ⟨empty⟩

/-- What `name` names. -/
def find? (t : Table α) (name : String) : Option α := t.entries.lookup name

/-- Puts an entry at its place in a sorted list of entries. -/
def insertEntry (name : String) (a : α) : List (String × α) → List (String × α)
  | [] => [(name, a)]
  | (x, b) :: rest =>
    if name = x then (name, a) :: rest
    else if name < x then (name, a) :: (x, b) :: rest
    else (x, b) :: insertEntry name a rest

theorem mem_insertEntry {name : String} {a : α} {entries : List (String × α)} {e : String × α}
    (h : e ∈ insertEntry name a entries) : e = (name, a) ∨ e ∈ entries := by
  induction entries with
  | nil => exact .inl (by simpa [insertEntry] using h)
  | cons head rest ih =>
    simp only [insertEntry] at h
    split at h
    · rcases List.mem_cons.mp h with h | h
      · exact .inl h
      · exact .inr (List.mem_cons_of_mem _ h)
    · split at h
      · exact List.mem_cons.mp h
      · rcases List.mem_cons.mp h with rfl | h
        · exact .inr List.mem_cons_self
        · exact (ih h).imp id (List.mem_cons_of_mem _)

/-- An entry that is put at its place leaves the list sorted. -/
theorem sorted_insertEntry (name : String) (a : α) {entries : List (String × α)}
    (h : entries.Pairwise fun a b => a.1 < b.1) :
    (insertEntry name a entries).Pairwise fun a b => a.1 < b.1 := by
  induction entries with
  | nil => exact List.pairwise_singleton _ _
  | cons head rest ih =>
    obtain ⟨hhead, hrest⟩ := List.pairwise_cons.mp h
    simp only [insertEntry]
    split
    · next heq => exact List.pairwise_cons.mpr ⟨fun e he => heq ▸ hhead e he, hrest⟩
    · next hne =>
      split
      · next hlt =>
        refine List.pairwise_cons.mpr ⟨fun e he => ?_, h⟩
        rcases List.mem_cons.mp he with rfl | he
        · exact hlt
        · exact String.lt_trans hlt (hhead e he)
      · next hge =>
        refine List.pairwise_cons.mpr ⟨fun e he => ?_, ih hrest⟩
        rcases mem_insertEntry he with rfl | he
        · exact Std.lt_of_le_of_ne (String.not_lt.mp hge) (Ne.symm hne)
        · exact hhead e he

/-- The table in which `name` names `a`. -/
def insert (t : Table α) (name : String) (a : α) : Table α :=
  ⟨insertEntry name a t.entries, sorted_insertEntry name a t.sorted⟩

/-- The table in which `name` names nothing. -/
def erase (t : Table α) (name : String) : Table α :=
  ⟨t.entries.filter fun e => e.1 ≠ name, t.sorted.filter _⟩

def lowest? (t : Table α) : Option String := t.entries.head?.map Prod.fst

@[simp] theorem find?_empty (name : String) : (empty : Table α).find? name = none := rfl

/-- After an insertion the name names what was inserted, and every other name what it named. -/
@[simp] theorem find?_insert (t : Table α) (name other : String) (a : α) :
    (t.insert name a).find? other = if other = name then some a else t.find? other := by
  simp only [find?, insert]
  induction t.entries with
  | nil => grind [insertEntry]
  | cons head rest ih => grind [insertEntry]

/-- After an erasure the name names nothing, and every other name what it named. -/
@[simp] theorem find?_erase (t : Table α) (name other : String) :
    (t.erase name).find? other = if other = name then none else t.find? other := by
  simp only [find?, erase]
  induction t.entries with
  | nil => grind
  | cons head rest ih => grind

/-- A name that names something names it again if it is taken away and given back. -/
theorem insert_erase {t : Table α} {name : String} {a : α} (h : t.find? name = some a) :
    (t.erase name).insert name a = t := by
  obtain ⟨entries, sorted⟩ := t
  have hentries : insertEntry name a (entries.filter fun e => e.1 ≠ name) = entries := by
    induction entries with
    | nil => cases h
    | cons head rest ih =>
      obtain ⟨x, b⟩ := head
      obtain ⟨hhead, hrest⟩ := List.pairwise_cons.mp sorted
      by_cases hname : name = x
      · subst hname
        have hgone : (rest.filter fun e => e.1 ≠ name) = rest :=
          List.filter_eq_self.mpr fun e he => by simpa using (String.ne_of_lt (hhead e he)).symm
        obtain rfl : b = a := by simpa [find?] using h
        rw [List.filter_cons_of_neg (by simp), hgone]
        cases rest with
        | nil => rfl
        | cons e rest =>
          have hlt : name < e.1 := hhead e List.mem_cons_self
          simp [insertEntry, String.ne_of_lt hlt, hlt]
      · have hfind : rest.lookup name = some a := by
          simpa [find?, List.lookup_cons, beq_eq_false_iff_ne.mpr hname] using h
        obtain ⟨e, he, heq⟩ :=
          List.lookup_isSome_iff.mp (show (rest.lookup name).isSome by simp [hfind])
        obtain rfl : name = e.1 := by simpa using heq
        have hnot : ¬ e.1 < x := String.not_lt.mpr (Std.le_of_lt (hhead e he))
        rw [List.filter_cons_of_pos (by simpa using Ne.symm hname), insertEntry, if_neg hname,
          if_neg hnot, ih hrest hfind]
  simp only [erase, insert, hentries]

theorem find?_isSome_of_lowest? {t : Table α} {name : String} (h : t.lowest? = some name) :
    (t.find? name).isSome := by
  obtain ⟨entries, sorted⟩ := t
  cases entries with
  | nil => simp [lowest?] at h
  | cons head rest =>
    obtain rfl : head.1 = name := by simpa [lowest?] using h
    simp [find?]

theorem le_of_lowest? {t : Table α} {name other : String} (h : t.lowest? = some name)
    (hother : (t.find? other).isSome) : name ≤ other := by
  obtain ⟨entries, sorted⟩ := t
  cases entries with
  | nil => simp [lowest?] at h
  | cons head rest =>
    obtain rfl : head.1 = name := by simpa [lowest?] using h
    obtain ⟨hhead, -⟩ := List.pairwise_cons.mp sorted
    obtain ⟨e, he, heq⟩ := List.lookup_isSome_iff.mp hother
    obtain rfl : other = e.1 := by simpa using heq
    rcases List.mem_cons.mp he with rfl | he
    · exact String.le_refl _
    · exact Std.le_of_lt (hhead e he)

end Table

end Coroutine
