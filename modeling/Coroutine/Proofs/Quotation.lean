import Coroutine.Text.Quoted
import Mathlib.Tactic.Common

/-! Quoted text can be read back. Main statement: where a quoted string ends, and which string it is,
can be told from the text that begins with it. -/

namespace Coroutine.Text

variable {c d : Char} {xs ys as bs : List Char}

/-- Texts up to a mark that is not in them. -/
theorem append_mark_inj (hx : d ∉ xs) (hy : d ∉ ys) (h : xs ++ d :: as = ys ++ d :: bs) :
    xs = ys ∧ as = bs := by
  rcases List.append_eq_append_iff.mp h with ⟨more, hys, hmore⟩ | ⟨more, hxs, hmore⟩
  · cases more with
    | nil => exact ⟨by simpa using hys.symm, List.tail_eq_of_cons_eq hmore⟩
    | cons e more =>
      obtain ⟨rfl, -⟩ := List.cons.inj hmore
      exact absurd (by simp [hys]) hy
  · cases more with
    | nil => exact ⟨by simpa using hxs, List.tail_eq_of_cons_eq hmore.symm⟩
    | cons e more =>
      obtain ⟨rfl, -⟩ := List.cons.inj hmore
      exact absurd (by simp [hxs]) hx

/-! ### Hexadecimal digits -/

theorem digitChar_inj : ∀ m < 16, ∀ n < 16, Nat.digitChar m = Nat.digitChar n → m = n := by decide

theorem digitChar_ne_brace : ∀ n < 16, Nat.digitChar n ≠ '\x7d' := by decide

theorem hexDigits_of_lt {n : Nat} (h : n < 16) : hexDigits n = [Nat.digitChar n] :=
  Nat.toDigits_of_lt_base h

theorem hexDigits_of_le {n : Nat} (h : 16 ≤ n) :
    hexDigits n = hexDigits (n / 16) ++ [Nat.digitChar (n % 16)] :=
  Nat.toDigits_of_base_le (by decide) h

theorem hexDigits_inj {m n : Nat} (h : hexDigits m = hexDigits n) : m = n := by
  -- The digits of both are compared from the last one on, so their numbers must match as well.
  induction m using Nat.strongRecOn generalizing n with
  | ind m ih =>
    rcases Nat.lt_or_ge m 16 with hm | hm <;> rcases Nat.lt_or_ge n 16 with hn | hn
    · rw [hexDigits_of_lt hm, hexDigits_of_lt hn] at h
      exact digitChar_inj m hm n hn (List.singleton_inj.mp h)
    · rw [hexDigits_of_lt hm, hexDigits_of_le hn, ← List.nil_append [Nat.digitChar m]] at h
      exact absurd (List.append_inj' h rfl).1.symm Nat.toDigits_ne_nil
    · rw [hexDigits_of_le hm, hexDigits_of_lt hn, ← List.nil_append [Nat.digitChar n]] at h
      exact absurd (List.append_inj' h rfl).1 Nat.toDigits_ne_nil
    · rw [hexDigits_of_le hm, hexDigits_of_le hn] at h
      obtain ⟨hinit, hlast⟩ := List.append_inj' h rfl
      have hquotient := ih (m / 16) (by omega) hinit
      have hremainder := digitChar_inj (m % 16) (by omega) (n % 16) (by omega)
        (List.singleton_inj.mp hlast)
      omega

theorem brace_not_mem_hexDigits (n : Nat) : '\x7d' ∉ hexDigits n := by
  induction n using Nat.strongRecOn with
  | ind n ih =>
    rcases Nat.lt_or_ge n 16 with hn | hn
    · rw [hexDigits_of_lt hn, List.mem_singleton]
      exact (digitChar_ne_brace n hn).symm
    · rw [hexDigits_of_le hn, List.mem_append, List.mem_singleton]
      rintro (hmem | heq)
      · exact ih (n / 16) (by omega) hmem
      · exact digitChar_ne_brace (n % 16) (by omega) heq.symm

/-! ### Escapes -/

/-- The character that a short escape stands for. -/
def ofShort : Char → Char
  | '0' => '\x00'
  | 't' => '\t'
  | 'n' => '\n'
  | 'r' => '\r'
  | c => c

/-- How a character is written: as itself, by a short escape, or by its code point. -/
inductive Written (c : Char) : List Char → Prop
  | plain : c ≠ '\\' → c ≠ '"' → Written c [c]
  | short (s : Char) : s ≠ 'u' → ofShort s = c → Written c ['\\', s]
  | code : Written c ('\\' :: 'u' :: '\x7b' :: (hexDigits c.toNat ++ ['\x7d']))

theorem written_escape (c : Char) : Written c (escape c) := by
  unfold escape
  split_ifs with h0 ht hn hr hq hb
  · exact .short '0' (by decide) h0.symm
  · exact .short 't' (by decide) ht.symm
  · exact .short 'n' (by decide) hn.symm
  · exact .short 'r' (by decide) hr.symm
  · exact .short '"' (by decide) hq.symm
  · exact .short '\\' (by decide) hb.symm
  · exact .plain hb hq
  · exact .code

theorem Written.inj (hc : Written c xs) (hd : Written d ys) (h : xs ++ as = ys ++ bs) :
    c = d ∧ as = bs := by
  cases hc with
  | plain hc =>
    cases hd with
    | plain => exact List.cons.inj h
    | short | code => exact absurd (List.cons.inj h).1 hc
  | short s hs hc =>
    cases hd with
    | plain hd => exact absurd (List.cons.inj h).1.symm hd
    | short t _ hd =>
      obtain ⟨hst, hrest⟩ := List.cons.inj (List.cons.inj h).2
      exact ⟨by rw [← hc, ← hd, hst], hrest⟩
    | code => exact absurd (List.cons.inj (List.cons.inj h).2).1 hs
  | code =>
    cases hd with
    | plain hd => exact absurd (List.cons.inj h).1.symm hd
    | short t ht => exact absurd (List.cons.inj (List.cons.inj h).2).1.symm ht
    | code =>
      have hcodes : hexDigits c.toNat ++ '\x7d' :: as = hexDigits d.toNat ++ '\x7d' :: bs := by
        simpa using h
      obtain ⟨hcode, hrest⟩ :=
        append_mark_inj (brace_not_mem_hexDigits _) (brace_not_mem_hexDigits _) hcodes
      exact ⟨Char.toNat_inj.mp (hexDigits_inj hcode), hrest⟩

/-- No character is written with a quotation mark in front. -/
theorem Written.append_ne_quote (h : Written c xs) : xs ++ as ≠ '"' :: bs := by
  intro heq
  cases h with
  | plain _ hq => exact hq (List.cons.inj heq).1
  | short | code => exact absurd (List.cons.inj heq).1 (by decide)

theorem flatMap_escape_inj (h : xs.flatMap escape ++ '"' :: as = ys.flatMap escape ++ '"' :: bs) :
    xs = ys ∧ as = bs := by
  induction xs generalizing ys with
  | nil =>
    cases ys with
    | nil => exact ⟨rfl, (List.cons.inj h).2⟩
    | cons d ys =>
      rw [List.flatMap_cons, List.append_assoc] at h
      exact absurd h.symm (written_escape d).append_ne_quote
  | cons c xs ih =>
    cases ys with
    | nil =>
      rw [List.flatMap_cons, List.append_assoc] at h
      exact absurd h (written_escape c).append_ne_quote
    | cons d ys =>
      rw [List.flatMap_cons, List.flatMap_cons, List.append_assoc, List.append_assoc] at h
      obtain ⟨rfl, hrest⟩ := (written_escape c).inj (written_escape d) h
      obtain ⟨rfl, heq⟩ := ih hrest
      exact ⟨rfl, heq⟩

/-- A text begins with no more than one quoted string. -/
theorem quoted_append_inj {s t a b : String} (h : quoted s ++ a = quoted t ++ b) :
    s = t ∧ a = b := by
  have hlists := congrArg String.toList h
  simp only [quoted, String.toList_append, String.toList_ofList, List.cons_append,
    List.append_assoc, List.nil_append] at hlists
  obtain ⟨hs, ha⟩ := flatMap_escape_inj (List.cons.inj hlists).2
  exact ⟨String.toList_inj.mp hs, String.toList_inj.mp ha⟩

end Coroutine.Text
