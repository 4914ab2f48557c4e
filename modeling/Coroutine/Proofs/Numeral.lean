import Coroutine.Text.Blank
import Coroutine.Text.Numeral
import Mathlib.Data.List.TakeWhile
import Mathlib.Tactic.Common

/-! The grammar of numerals. Main statements: every text has one part between the blanks at its ends;
a number is read exactly from the texts that write it, and from every other text the first thing that
is wrong in it. -/

namespace Coroutine.Text

variable {bound acc n : Nat} {cs text digits rest : List Char} {c : Char} {reason : NumeralError}

/-! ### Blanks -/

/-- `text` is what `cs` has between the blanks at its ends. -/
structure Trims (cs text : List Char) : Prop where
  framed : ∃ before after, cs = before ++ (text ++ after) ∧ (∀ c ∈ before, isBlank c = true) ∧
    ∀ c ∈ after, isBlank c = true
  head : ∀ c ∈ text.head?, isBlank c = false
  last : ∀ c ∈ text.getLast?, isBlank c = false

theorem dropWhile_isBlank_eq_self (h : ∀ c ∈ cs.head?, isBlank c = false) :
    cs.dropWhile isBlank = cs := by
  cases cs with
  | nil => rfl
  | cons c cs => exact List.dropWhile_cons_of_neg (by simp [h c rfl])

theorem not_isBlank_head_dropWhile (cs : List Char) :
    ∀ c ∈ (cs.dropWhile isBlank).head?, isBlank c = false := by
  intro c hc
  have h := List.head?_dropWhile_not isBlank cs
  rwa [hc] at h

theorem trims_trimBlanks (cs : List Char) : Trims cs (trimBlanks cs) := by
  have hparts : cs.dropWhile isBlank = trimBlanks cs ++
      ((cs.dropWhile isBlank).reverse.takeWhile isBlank).reverse := by
    rw [trimBlanks, ← List.reverse_append, List.takeWhile_append_dropWhile, List.reverse_reverse]
  constructor
  case framed =>
    refine ⟨cs.takeWhile isBlank, ((cs.dropWhile isBlank).reverse.takeWhile isBlank).reverse,
      ?_, ?_, ?_⟩
    · rw [← hparts, List.takeWhile_append_dropWhile]
    · intro c hc
      exact List.mem_takeWhile_imp hc
    · intro c hc
      exact List.mem_takeWhile_imp (List.mem_reverse.mp hc)
  case head =>
    intro c hc
    apply not_isBlank_head_dropWhile cs
    rw [hparts, List.head?_append, hc]
    rfl
  case last =>
    intro c hc
    rw [trimBlanks, List.getLast?_reverse] at hc
    exact not_isBlank_head_dropWhile _ c hc

/-- A text has one part between the blanks at its ends. -/
theorem trims_iff : Trims cs text ↔ text = trimBlanks cs := by
  constructor
  · intro h
    obtain ⟨before, after, rfl, hbefore, hafter⟩ := h.framed
    rw [trimBlanks, List.dropWhile_append_of_pos hbefore]
    cases text with
    | nil => rw [List.nil_append, List.dropWhile_eq_nil_iff.mpr hafter]; rfl
    | cons c text =>
      have hhead : ((c :: text) ++ after).dropWhile isBlank = (c :: text) ++ after :=
        dropWhile_isBlank_eq_self h.head
      have hlast : (c :: text).reverse.dropWhile isBlank = (c :: text).reverse :=
        dropWhile_isBlank_eq_self (by rw [List.head?_reverse]; exact h.last)
      have hends : ∀ c ∈ after.reverse, isBlank c = true := by simpa using hafter
      rw [hhead, List.reverse_append, List.dropWhile_append_of_pos hends, hlast, List.reverse_reverse]
  · rintro rfl
    exact trims_trimBlanks cs

/-! ### Digits -/

theorem digitValue?_of_isDigit (h : c.isDigit = true) : digitValue? c = some (c.toNat - '0'.toNat) :=
  if_pos (Char.isDigit_iff_toNat.mp h)

theorem digitValue?_of_not_isDigit (h : c.isDigit = false) : digitValue? c = none := by
  apply if_neg
  intro hc
  rw [Char.isDigit_iff_toNat.mpr hc] at h
  cases h

/-- More digits make no smaller number. -/
theorem le_ofDigitChars (acc : Nat) (digits : List Char) : acc ≤ Nat.ofDigitChars 10 digits acc := by
  induction digits generalizing acc with
  | nil => exact Nat.le_refl acc
  | cons c digits ih =>
    rw [Nat.ofDigitChars_cons]
    have := ih (10 * acc + (c.toNat - '0'.toNat))
    omega

/-- What is wrong first with a text that should continue the number `acc` below the bound: a character
that is no digit, after digits that stay below, or digits that do not stay below. -/
inductive Spoils (bound acc : Nat) : List Char → NumeralError → Prop
  | invalidDigit {digits : List Char} {c : Char} {rest : List Char} :
      (∀ d ∈ digits, d.isDigit = true) → Nat.ofDigitChars 10 digits acc < bound →
      c.isDigit = false → Spoils bound acc (digits ++ c :: rest) .invalidDigit
  | tooLarge {digits rest : List Char} : (∀ d ∈ digits, d.isDigit = true) →
      bound ≤ Nat.ofDigitChars 10 digits acc → Spoils bound acc (digits ++ rest) .tooLarge

theorem Spoils.cons (hc : c.isDigit = true)
    (h : Spoils bound (10 * acc + (c.toNat - '0'.toNat)) cs reason) :
    Spoils bound acc (c :: cs) reason := by
  cases h with
  | @invalidDigit digits e rest hdigits hlt he =>
    show Spoils bound acc ((c :: digits) ++ e :: rest) .invalidDigit
    exact .invalidDigit (List.forall_mem_cons.mpr ⟨hc, hdigits⟩) hlt he
  | @tooLarge digits rest hdigits hle =>
    show Spoils bound acc ((c :: digits) ++ rest) .tooLarge
    exact .tooLarge (List.forall_mem_cons.mpr ⟨hc, hdigits⟩) hle

/-- Digits that stay below the bound are read, and reading goes on after them. -/
theorem readDigits_append (hdigits : ∀ d ∈ digits, d.isDigit = true)
    (hlt : Nat.ofDigitChars 10 digits acc < bound) (rest : List Char) :
    readDigits bound acc (digits ++ rest) =
      readDigits bound (Nat.ofDigitChars 10 digits acc) rest := by
  induction digits generalizing acc with
  | nil => rfl
  | cons c digits ih =>
    obtain ⟨hc, hdigits⟩ := List.forall_mem_cons.mp hdigits
    rw [Nat.ofDigitChars_cons] at hlt ⊢
    have hacc := Nat.lt_of_le_of_lt (le_ofDigitChars _ digits) hlt
    rw [List.cons_append, readDigits, digitValue?_of_isDigit hc]
    simp only [if_pos hacc]
    exact ih hdigits hlt

theorem readDigits_tooLarge (hacc : acc < bound) (hdigits : ∀ d ∈ digits, d.isDigit = true)
    (hle : bound ≤ Nat.ofDigitChars 10 digits acc) (rest : List Char) :
    readDigits bound acc (digits ++ rest) = .error .tooLarge := by
  induction digits generalizing acc with
  | nil =>
    rw [Nat.ofDigitChars_nil] at hle
    omega
  | cons c digits ih =>
    obtain ⟨hc, hdigits⟩ := List.forall_mem_cons.mp hdigits
    rw [List.cons_append, readDigits, digitValue?_of_isDigit hc]
    simp only
    split
    · next hlt => exact ih hlt hdigits hle
    · rfl

theorem readDigits_eq_ok_iff (hacc : acc < bound) : readDigits bound acc cs = .ok n ↔
    (∀ d ∈ cs, d.isDigit = true) ∧ Nat.ofDigitChars 10 cs acc = n ∧ n < bound := by
  constructor
  · intro h
    -- On the text, for every number read so far: a digit changes it and keeps it below the bound.
    induction cs generalizing acc with
    | nil =>
      cases h
      exact ⟨List.forall_mem_nil _, rfl, hacc⟩
    | cons c cs ih =>
      cases hc : c.isDigit with
      | false => simp [readDigits, digitValue?_of_not_isDigit hc] at h
      | true =>
        rw [readDigits, digitValue?_of_isDigit hc] at h
        simp only at h
        split at h
        · next hlt =>
          obtain ⟨hdigits, hvalue, hn⟩ := ih hlt h
          exact ⟨List.forall_mem_cons.mpr ⟨hc, hdigits⟩, hvalue, hn⟩
        · cases h
  · rintro ⟨hdigits, rfl, hlt⟩
    have hread := readDigits_append hdigits hlt []
    rwa [List.append_nil] at hread

theorem readDigits_eq_error_iff (hacc : acc < bound) :
    readDigits bound acc cs = .error reason ↔ Spoils bound acc cs reason := by
  constructor
  · intro h
    induction cs generalizing acc with
    | nil => cases h
    | cons c cs ih =>
      cases hc : c.isDigit with
      | false =>
        rw [readDigits, digitValue?_of_not_isDigit hc] at h
        cases h
        show Spoils bound acc ([] ++ c :: cs) .invalidDigit
        exact .invalidDigit (List.forall_mem_nil _) hacc hc
      | true =>
        rw [readDigits, digitValue?_of_isDigit hc] at h
        simp only at h
        split at h
        · next hlt => exact (ih hlt h).cons hc
        · next hle =>
          cases h
          show Spoils bound acc ([c] ++ cs) .tooLarge
          exact .tooLarge (List.forall_mem_singleton.mpr hc) (Nat.le_of_not_lt hle)
  · intro h
    cases h with
    | invalidDigit hdigits hlt hc =>
      rw [readDigits_append hdigits hlt, readDigits, digitValue?_of_not_isDigit hc]
    | tooLarge hdigits hle => exact readDigits_tooLarge hacc hdigits hle _

/-! ### Numerals -/

/-- A text writes a number: after at most one plus sign there are digits, and they have this value. -/
def Writes (text : List Char) (n : Nat) : Prop :=
  ∃ sign digits, text = sign ++ digits ∧ (sign = [] ∨ sign = ['+']) ∧ digits ≠ [] ∧
    (∀ d ∈ digits, d.isDigit = true) ∧ Nat.ofDigitChars 10 digits 0 = n

/-- A text without the plus sign in front of it. -/
def unsigned : List Char → List Char
  | '+' :: rest => rest
  | text => text

/-- What is wrong first with a text that should write a number below the bound. -/
inductive Blames (bound : Nat) : List Char → NumeralError → Prop
  | empty : Blames bound [] .empty
  | signOnly : Blames bound ['+'] .invalidDigit
  | digits {text : List Char} {reason : NumeralError} : Spoils bound 0 (unsigned text) reason →
      Blames bound text reason

theorem eq_unsigned_or (text : List Char) : text = unsigned text ∨ text = '+' :: unsigned text := by
  unfold unsigned
  split
  · exact .inr rfl
  · exact .inl rfl

theorem unsigned_of_isDigit (h : c.isDigit = true) (cs : List Char) :
    unsigned (c :: cs) = c :: cs := by
  unfold unsigned
  split
  · next heq =>
    obtain ⟨rfl, -⟩ := List.cons.inj heq
    cases h
  · rfl

theorem writes_iff : Writes text n ↔ unsigned text ≠ [] ∧
    (∀ d ∈ unsigned text, d.isDigit = true) ∧ Nat.ofDigitChars 10 (unsigned text) 0 = n := by
  constructor
  · rintro ⟨sign, digits, rfl, rfl | rfl, hne, hdigits, hvalue⟩
    · have hunsigned : unsigned ([] ++ digits) = digits := by
        cases digits with
        | nil => rfl
        | cons c digits => exact unsigned_of_isDigit (hdigits c (.head _)) digits
      rw [hunsigned]
      exact ⟨hne, hdigits, hvalue⟩
    · exact ⟨hne, hdigits, hvalue⟩
  · rintro ⟨hne, hdigits, hvalue⟩
    rcases eq_unsigned_or text with htext | htext
    · exact ⟨[], unsigned text, htext, .inl rfl, hne, hdigits, hvalue⟩
    · exact ⟨['+'], unsigned text, htext, .inr rfl, hne, hdigits, hvalue⟩

theorem eq_of_unsigned_eq_nil (h : unsigned text = []) : text = [] ∨ text = ['+'] := by
  have heq := eq_unsigned_or text
  rwa [h] at heq

theorem readNumeral_of_unsigned (h : unsigned text ≠ []) :
    readNumeral bound text = readDigits bound 0 (unsigned text) := by
  unfold unsigned at h ⊢
  split at h
  · next rest =>
    cases rest with
    | nil => exact absurd rfl h
    | cons c rest => rfl
  · next hsign =>
    unfold readNumeral
    split
    · exact absurd rfl h
    · exact absurd rfl (hsign [])
    · next rest _ => exact absurd rfl (hsign rest)
    · rfl

/-- A number is read exactly from the texts that write it. -/
theorem readNumeral_eq_ok_iff (hbound : 0 < bound) :
    readNumeral bound text = .ok n ↔ Writes text n ∧ n < bound := by
  rw [writes_iff]
  by_cases hne : unsigned text = []
  · rcases eq_of_unsigned_eq_nil hne with rfl | rfl <;> simp [readNumeral, unsigned]
  · rw [readNumeral_of_unsigned hne, readDigits_eq_ok_iff hbound]
    constructor
    · rintro ⟨hdigits, hvalue, hlt⟩
      exact ⟨⟨hne, hdigits, hvalue⟩, hlt⟩
    · rintro ⟨⟨-, hdigits, hvalue⟩, hlt⟩
      exact ⟨hdigits, hvalue, hlt⟩

theorem Spoils.ne_nil (hacc : acc < bound) (h : Spoils bound acc cs reason) : cs ≠ [] := by
  rintro rfl
  have hread := (readDigits_eq_error_iff hacc).mpr h
  cases hread

/-- From a text that writes no number below the bound the first thing is read that is wrong in it. -/
theorem readNumeral_eq_error_iff (hbound : 0 < bound) :
    readNumeral bound text = .error reason ↔ Blames bound text reason := by
  constructor
  · intro h
    by_cases hne : unsigned text = []
    · rcases eq_of_unsigned_eq_nil hne with rfl | rfl
      · cases h
        exact .empty
      · cases h
        exact .signOnly
    · rw [readNumeral_of_unsigned hne, readDigits_eq_error_iff hbound] at h
      exact .digits h
  · intro h
    cases h with
    | empty | signOnly => rfl
    | digits h =>
      rw [readNumeral_of_unsigned (h.ne_nil hbound)]
      exact (readDigits_eq_error_iff hbound).mpr h

end Coroutine.Text
