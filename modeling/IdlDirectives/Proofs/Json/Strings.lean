import IdlDirectives.Json.Printer
import IdlDirectives.Json.Reader

namespace IdlDirectives.Json

theorem hexValue?_hexDigit {n : Nat} (small : n < 16) : hexValue? (hexDigit n) = some n := by
  have each : ∀ n < 16, hexValue? (hexDigit n) = some n := by decide
  exact each n small

theorem codeUnit?_control {n : Nat} (control : n < 0x20) :
    codeUnit? '0' '0' (hexDigit (n / 16)) (hexDigit (n % 16)) = some n := by
  have zero : hexValue? '0' = some 0 := by decide
  have high : hexValue? (hexDigit (n / 16)) = some (n / 16) := hexValue?_hexDigit (by omega)
  have low : hexValue? (hexDigit (n % 16)) = some (n % 16) := hexValue?_hexDigit (by omega)
  have whole : n / 16 * 16 + n % 16 = n := by omega
  simp [codeUnit?, zero, high, low, whole]

theorem ofCodeUnit_control {n : Nat} (control : n < 0x20) :
    StringUnit.ofCodeUnit n = .char (Char.ofNat n) := by
  have noHigh : ¬ 0xD800 ≤ n := by omega
  have noLow : ¬ 0xDC00 ≤ n := by omega
  simp [StringUnit.ofCodeUnit, noHigh, noLow]

def StringUnit.before (unit : StringUnit) (read : List StringUnit × List Char) :
    List StringUnit × List Char :=
  (unit :: read.1, read.2)

theorem readUnits_short {e c : Char} (short : shortEscape? e = some c) (other : e ≠ 'u')
    (rest : List Char) :
    readUnits ('\\' :: e :: rest) = (readUnits rest).map (StringUnit.char c).before := by
  rw [readUnits]
  · simp only [Char.reduceBEq, Bool.false_eq_true, if_false, if_true, short]
    cases readUnits rest with
    | none => rfl
    | some read => rfl
  · intro _ _ _ _ _ same
    exact absurd same other

theorem readUnits_control {n : Nat} (control : n < 0x20) (rest : List Char) :
    readUnits ('\\' :: 'u' :: '0' :: '0' :: hexDigit (n / 16) :: hexDigit (n % 16) :: rest) =
      (readUnits rest).map (StringUnit.char (Char.ofNat n)).before := by
  rw [readUnits]
  simp only [Char.reduceBEq, Bool.false_eq_true, if_false, if_true, codeUnit?_control control]
  cases readUnits rest with
  | none => rfl
  | some read => exact congrArg (fun unit => some (unit :: read.1, read.2)) (ofCodeUnit_control control)

theorem readUnits_plain {c : Char} (quote : c ≠ '"') (backslash : c ≠ '\\') (plain : ¬ c.toNat < 0x20)
    (rest : List Char) :
    readUnits (c :: rest) = (readUnits rest).map (StringUnit.char c).before := by
  rw [readUnits.eq_def]
  simp only [beq_eq_false_iff_ne.mpr quote, beq_eq_false_iff_ne.mpr backslash, plain,
    Bool.false_eq_true, if_false]
  cases readUnits rest with
  | none => rfl
  | some read => rfl

theorem readUnits_escapeChar (c : Char) (rest : List Char) :
    readUnits (escapeChar c ++ rest) = (readUnits rest).map (StringUnit.char c).before := by
  unfold escapeChar
  split
  · exact readUnits_short rfl (by decide) rest
  · exact readUnits_short rfl (by decide) rest
  · exact readUnits_short rfl (by decide) rest
  · exact readUnits_short rfl (by decide) rest
  · exact readUnits_short rfl (by decide) rest
  · exact readUnits_short rfl (by decide) rest
  · exact readUnits_short rfl (by decide) rest
  · next quote backslash _ _ _ _ _ =>
    split
    · next control =>
      have read := readUnits_control control rest
      rwa [Char.ofNat_toNat] at read
    · next plain => exact readUnits_plain quote backslash plain rest

theorem readUnits_end (rest : List Char) : readUnits ('"' :: rest) = some ([], rest) := by
  rw [readUnits.eq_def]
  rfl

theorem readUnits_escaped (cs rest : List Char) :
    readUnits (cs.flatMap escapeChar ++ '"' :: rest) = some (cs.map .char, rest) := by
  induction cs with
  | nil => exact readUnits_end rest
  | cons c cs ih =>
    rw [List.flatMap_cons, List.append_assoc, readUnits_escapeChar, ih]
    rfl

theorem joinUnits?_chars (cs : List Char) : joinUnits? (cs.map .char) = some cs := by
  induction cs with
  | nil => rfl
  | cons c cs ih => rw [List.map_cons, joinUnits?, ih, Option.map_some]

theorem readString_quote (value : String) (rest : List Char) :
    readString (value.toList.flatMap escapeChar ++ '"' :: rest) = some (some value, rest) := by
  simp [readString, readUnits_escaped, joinUnits?_chars]

end IdlDirectives.Json
