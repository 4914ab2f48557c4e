import Coroutine.Config
import Coroutine.Proofs.Numeral
import Coroutine.Proofs.Quotation
import Mathlib.Algebra.Group.Nat.Defs

/-! The configuration that the environment asks for. Main statement: the variable sets the size exactly
if its text writes a number of 64 bits; any other text leaves the default and one warning, from which
the text and what is wrong with it can be told. -/

namespace Coroutine

open Text

/-- A record warns that the text of the variable is no size, and of nothing else: it quotes the whole
text and names the reason. -/
structure Record.Warns (r : Record) (raw : String) (reason : NumeralError) : Prop where
  level : r.level = .warn
  message : r.message = "ignoring FIBER_GEN_STACK_SIZE=" ++ quoted raw ++ " (" ++ reason.message ++
    "); using " ++ toString defaultStackSize ++ " bytes"
  only : ∀ raw' reason', (Record.ignoredSize raw' reason').message = r.message →
    raw' = raw ∧ reason' = reason

theorem Text.NumeralError.message_inj {reason reason' : NumeralError}
    (h : reason.message = reason'.message) : reason = reason' := by
  cases reason <;> cases reason' <;> first | rfl | simp [message] at h

theorem Record.message_ignoredSize (raw : String) (reason : NumeralError) :
    (Record.ignoredSize raw reason).message = "ignoring FIBER_GEN_STACK_SIZE=" ++ quoted raw ++ " (" ++
      reason.message ++ "); using " ++ toString defaultStackSize ++ " bytes" := rfl

theorem Record.warns_ignoredSize (raw : String) (reason : NumeralError) :
    (Record.ignoredSize raw reason).Warns raw reason where
  level := rfl
  message := message_ignoredSize raw reason
  only raw' reason' h := by
    rw [message_ignoredSize, message_ignoredSize] at h
    simp only [String.append_assoc, String.append_right_inj] at h
    obtain ⟨rfl, hrest⟩ := quoted_append_inj h
    rw [String.append_right_inj, String.append_left_inj] at hrest
    exact ⟨rfl, NumeralError.message_inj hrest⟩

namespace Config

variable {raw : String} {text : List Char} {n : Nat} {reason : NumeralError}

theorem ofText_of_writes (htext : Trims raw.toList text) (hn : Writes text n) (hlt : n < 2 ^ 64) :
    ofText raw = ({ stackSize := n }, none) := by
  have hread : readNumeral (1 <<< 64) (trimBlanks raw.toList) = .ok n := by
    rw [Nat.one_shiftLeft, ← trims_iff.mp htext]
    exact (readNumeral_eq_ok_iff (by decide)).mpr ⟨hn, hlt⟩
  simp only [ofText, hread]

theorem ofText_of_blames (htext : Trims raw.toList text) (h : Blames (2 ^ 64) text reason) :
    ofText raw = ({}, some (.ignoredSize raw reason)) := by
  have hread : readNumeral (1 <<< 64) (trimBlanks raw.toList) = .error reason := by
    rw [Nat.one_shiftLeft, ← trims_iff.mp htext]
    exact (readNumeral_eq_error_iff (by decide)).mpr h
  simp only [ofText, hread]

/-- A text that writes no number of 64 bits has one reason why. -/
theorem exists_blames (h : ∀ n, Writes text n → 2 ^ 64 ≤ n) :
    ∃ reason, ∀ reason', Blames (2 ^ 64) text reason' ↔ reason' = reason := by
  have hbound : 0 < 2 ^ 64 := by decide
  cases hread : readNumeral (2 ^ 64) text with
  | ok n =>
    obtain ⟨hn, hlt⟩ := (readNumeral_eq_ok_iff hbound).mp hread
    exact absurd hlt (Nat.not_lt.mpr (h n hn))
  | error reason =>
    refine ⟨reason, fun reason' => ?_⟩
    rw [← readNumeral_eq_error_iff hbound, hread, Except.error.injEq, eq_comm]

theorem ofEnvironment_of_text (raw : String) :
    ofEnvironment (some raw.toByteArray) = ofText raw := by
  have hraw : String.fromUTF8? raw.toByteArray = some raw := dif_pos raw.isValidUTF8
  simp only [ofEnvironment, Option.bind_some, hraw]

theorem ofEnvironment_of_not_isValidUTF8 {bytes : ByteArray} (h : ¬ bytes.IsValidUTF8) :
    ofEnvironment (some bytes) = ({}, none) := by
  have hbytes : String.fromUTF8? bytes = none := dif_neg h
  simp only [ofEnvironment, Option.bind_some, hbytes]

/-- Of the sizes that are set in turn the last one stays. -/
theorem getLast?_scan (config : Config) (sizes : List Nat) (h : sizes ≠ []) :
    (config.scan sizes).getLast? = some (config.withStackSize (sizes.getLast h)) := by
  induction sizes generalizing config with
  | nil => exact absurd rfl h
  | cons size rest ih =>
    rw [scan]
    cases rest with
    | nil => rfl
    | cons next rest =>
      have hrest := ih (config.withStackSize size) (List.cons_ne_nil next rest)
      rw [withStackSize_withStackSize] at hrest
      rw [List.getLast?_cons, hrest, List.getLast_cons (List.cons_ne_nil next rest)]
      rfl

/-- What is read of the content of the variable. -/
structure Reads (content : Option ByteArray) (read : Config × Option Record) : Prop where
  /-- A text has one part between the blanks at its ends. -/
  trimmed : ∀ raw : String, ∃! text, Trims raw.toList text
  /-- If that part writes a number of 64 bits, the number is the size, and nothing is reported. -/
  accepted : ∀ (raw : String) (text : List Char) (n : Nat), content = some raw.toByteArray →
    Trims raw.toList text → Writes text n → n ≤ 2 ^ 64 - 1 → read = ({ stackSize := n }, none)
  /-- If it writes none, the default stays, and one warning gives the one reason. -/
  rejected : ∀ (raw : String) (text : List Char), content = some raw.toByteArray →
    Trims raw.toList text → (∀ n, Writes text n → 2 ^ 64 - 1 < n) →
      ∃ reason r, (∀ reason', Blames (2 ^ 64) text reason' ↔ reason' = reason) ∧
        r.Warns raw reason ∧ read = ({}, some r)
  unset : content = none → read = ({}, none)
  noText : ∀ bytes : ByteArray, content = some bytes → ¬ bytes.IsValidUTF8 → read = ({}, none)
  /-- Whatever was read, the size that is set last stays. -/
  resized : ∀ (sizes : List Nat) (h : sizes ≠ []),
    (read.1.scan sizes).getLast? = some (({} : Config).withStackSize (sizes.getLast h))

/-- The variable is read by its grammar, whatever its content. -/
theorem reads_ofEnvironment (content : Option ByteArray) : Reads content (ofEnvironment content) where
  trimmed raw := ⟨trimBlanks raw.toList, trims_trimBlanks _, fun _ h => trims_iff.mp h⟩
  accepted raw text n hcontent htext hn hle := by
    rw [hcontent, ofEnvironment_of_text]
    exact ofText_of_writes htext hn (by omega)
  rejected raw text hcontent htext hnone := by
    obtain ⟨reason, hreason⟩ := exists_blames fun n hn => by
      have := hnone n hn
      omega
    refine ⟨reason, .ignoredSize raw reason, hreason, Record.warns_ignoredSize raw reason, ?_⟩
    rw [hcontent, ofEnvironment_of_text]
    exact ofText_of_blames htext ((hreason reason).mpr rfl)
  unset hcontent := by
    rw [hcontent]
    rfl
  noText bytes hcontent hbytes := by
    rw [hcontent]
    exact ofEnvironment_of_not_isValidUTF8 hbytes
  resized sizes h := getLast?_scan _ sizes h

/-- A plus sign and leading zeros are read over. -/
example : ofText " +0065536 " = ({ stackSize := 65536 }, none) := by decide

/-- The number is too large before the character comes that is no digit. -/
example : ofText "99999999999999999999x" =
    ({}, some (.ignoredSize "99999999999999999999x" .tooLarge)) := by decide

end Config

end Coroutine
