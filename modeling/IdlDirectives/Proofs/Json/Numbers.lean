import IdlDirectives.Json.Printer
import IdlDirectives.Json.Reader

namespace IdlDirectives.Json

def EndsNumber (rest : List Char) : Prop :=
  ∀ c ∈ rest.head?, c.isDigit = false ∧ c ≠ '.' ∧ c ≠ 'e' ∧ c ≠ 'E'

theorem digitsValue_eq (ds : List Char) : digitsValue ds = Nat.ofDigitChars 10 ds 0 := by
  simp only [digitsValue, Nat.ofDigitChars_eq_foldl, digitValue, Nat.mul_comm]

theorem digitsValue_toDigits (n : Nat) : digitsValue (Nat.toDigits 10 n) = n := by
  rw [digitsValue_eq, Nat.ofDigitChars_ten_toDigits]

theorem isDigit_toDigits {n : Nat} {c : Char} (member : c ∈ Nat.toDigits 10 n) : c.isDigit = true :=
  Nat.isDigit_of_mem_toDigits (by decide) (by decide) member

theorem exists_toDigits_cons (n : Nat) :
    ∃ d rest, Nat.toDigits 10 n = d :: rest ∧ d.isDigit = true := by
  cases digits : Nat.toDigits 10 n with
  | nil => exact absurd digits Nat.toDigits_ne_nil
  | cons d rest => exact ⟨d, rest, rfl, isDigit_toDigits (digits ▸ List.mem_cons_self)⟩

theorem head?_toDigits {n : Nat} (positive : 0 < n) : (Nat.toDigits 10 n).head? ≠ some '0' := by
  induction n using Nat.strongRecOn with
  | ind n ih =>
    by_cases small : n < 10
    · have each : ∀ n < 10, 0 < n → (Nat.toDigits 10 n).head? ≠ some '0' := by decide
      exact each n small positive
    · have first := ih (n / 10) (by omega) (by omega)
      rw [Nat.toDigits_of_base_le (by decide) (by omega)]
      obtain ⟨d, rest, digits, -⟩ := exists_toDigits_cons (n / 10)
      rw [digits] at first ⊢
      exact first

theorem toDigits_canonical (n : Nat) :
    ((Nat.toDigits 10 n).length > 1 && (Nat.toDigits 10 n).head? == some '0') = false := by
  rcases Nat.eq_zero_or_pos n with rfl | positive
  · decide
  · simp [head?_toDigits positive]

theorem le_foldl_digits (ds : List Char) (n : Nat) :
    n ≤ ds.foldl (fun n d => n * 10 + digitValue d) n := by
  induction ds generalizing n with
  | nil => exact Nat.le_refl n
  | cons d rest ih =>
    have next := ih (n * 10 + digitValue d)
    simp only [List.foldl_cons]
    omega

theorem appendDigits_fit {ds : List Char} {n : Nat}
    (fits : ds.foldl (fun n d => n * 10 + digitValue d) n < UInt64.size) :
    appendDigits n ds = (ds.foldl (fun n d => n * 10 + digitValue d) n, []) := by
  induction ds generalizing n with
  | nil => rfl
  | cons d rest ih =>
    have next : n * 10 + digitValue d < UInt64.size :=
      Nat.lt_of_le_of_lt (le_foldl_digits rest (n * 10 + digitValue d)) fits
    rw [appendDigits]
    exact (if_pos next).trans (ih fits)

theorem roundToDouble_le (n : Nat) : roundToDouble n ≤ 2 * n := by
  rcases Nat.eq_zero_or_pos n with rfl | positive
  · decide
  · have unit : Nat.pow 2 (n.log2 - 52) ≤ n :=
      Nat.le_trans (Nat.pow_le_pow_right (by decide) (Nat.sub_le _ _)) (Nat.log2_self_le (by omega))
    have whole : n / Nat.pow 2 (n.log2 - 52) * Nat.pow 2 (n.log2 - 52) ≤ n := Nat.div_mul_le_self _ _
    simp only [roundToDouble]
    split
    · rw [Nat.add_mul, Nat.one_mul]
      omega
    · omega

theorem inRange_integer {n : Nat} (fits : n < UInt64.size) : inRange (Nat.toDigits 10 n) [] 0 = true := by
  have value : (Nat.toDigits 10 n).foldl (fun n d => n * 10 + digitValue d) 0 = n :=
    digitsValue_toDigits n
  have kept : appendDigits 0 (Nat.toDigits 10 n) = (n, []) := by
    rw [appendDigits_fit (by rw [value]; exact fits), value]
  have one : roundToDouble 1 = 1 := by decide
  have bound : 2 * UInt64.size < doubleBound := by decide +kernel
  have rounded := roundToDouble_le n
  have held : roundToDouble n < doubleBound := by omega
  simp [inRange, kept, appendDigits, one, held]

theorem span_toDigits (n : Nat) {rest : List Char} (ends : EndsNumber rest) :
    (Nat.toDigits 10 n ++ rest).takeWhile Char.isDigit = Nat.toDigits 10 n ∧
      (Nat.toDigits 10 n ++ rest).dropWhile Char.isDigit = rest := by
  have digits : ∀ c ∈ Nat.toDigits 10 n, c.isDigit = true := fun _ => isDigit_toDigits
  rw [List.takeWhile_append_of_pos digits, List.dropWhile_append_of_pos digits]
  cases rest with
  | nil => simp
  | cons c rest =>
    have stop : c.isDigit = false := (ends c rfl).1
    simp [stop]

theorem readFraction_end {rest : List Char} (ends : EndsNumber rest) :
    readFraction rest = some ([], rest) := by
  unfold readFraction
  split
  · exact absurd rfl (ends '.' rfl).2.1
  · rfl

theorem readExponent_end {rest : List Char} (ends : EndsNumber rest) :
    readExponent rest = some (([], []), rest) := by
  cases rest with
  | nil => rfl
  | cons c rest =>
    obtain ⟨-, -, lower, upper⟩ := ends c rfl
    simp [readExponent, lower, upper]

theorem readMagnitude_toDigits {n : Nat} (fits : n < UInt64.size) {negative : Bool}
    (signed : negative = true → n ≠ 0) {rest : List Char} (ends : EndsNumber rest) :
    readMagnitude negative (Nat.toDigits 10 n ++ rest) =
      some (.integer (if negative then -(n : Int) else n), rest) := by
  obtain ⟨whole, after⟩ := span_toDigits n ends
  have some_digit : (Nat.toDigits 10 n).isEmpty = false := by simp
  have zero : (negative && n == 0) = false := by
    cases negative with
    | false => rfl
    | true => simp [signed rfl]
  have empty : digitsValue [] = 0 := rfl
  simp [readMagnitude, whole, after, some_digit, toDigits_canonical n, readFraction_end ends,
    readExponent_end ends, digitsValue_toDigits, empty, inRange_integer fits, zero]

theorem readNumber_writeInteger {n : Int} (fits : n.natAbs < UInt64.size) {rest : List Char}
    (ends : EndsNumber rest) : readNumber (writeInteger n ++ rest) = some (.integer n, rest) := by
  unfold writeInteger
  by_cases negative : n < 0
  · have value : -(n.natAbs : Int) = n := by omega
    rw [if_pos negative, List.cons_append, readNumber, readMagnitude_toDigits fits (by omega) ends,
      if_pos rfl, value]
  · have value : (n.natAbs : Int) = n := by omega
    have magnitude : readMagnitude false (Nat.toDigits 10 n.natAbs ++ rest) = _ :=
      readMagnitude_toDigits fits (by simp) ends
    rw [if_neg negative, readNumber]
    · simpa [value] using magnitude
    · intro after same
      obtain ⟨d, digits, first, digit⟩ := exists_toDigits_cons n.natAbs
      rw [first] at same
      rw [(List.cons.inj same).1] at digit
      cases digit

end IdlDirectives.Json
