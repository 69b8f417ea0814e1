namespace IdlDirectives.Json

def digitValue (d : Char) : Nat :=
  d.toNat - '0'.toNat

def digitsValue (ds : List Char) : Nat :=
  ds.foldl (fun n d => n * 10 + digitValue d) 0

def appendDigits (n : Nat) : List Char → Nat × List Char
  | [] => (n, [])
  | d :: rest =>
    let next := n * 10 + digitValue d
    if next < UInt64.size then appendDigits next rest else (n, d :: rest)

/-- The nearest number with 53 binary digits at most, the even one of two. -/
def roundToDouble (n : Nat) : Nat :=
  let unit := Nat.pow 2 (n.log2 - 52)
  let quotient := n / unit
  let remainder := n % unit
  if unit < 2 * remainder ∨ (unit = 2 * remainder ∧ quotient % 2 = 1) then (quotient + 1) * unit
  else quotient * unit

/-- Half a unit in the last place above the largest double: from here on a number has no double. -/
def doubleBound : Nat := Nat.pow 2 1024 - Nat.pow 2 970

/-- Whether a number is in range that has these digits before and after its point, and then a power of
ten. Digits before the point that do not fit count for the power of ten, those after it do not. -/
def inRange (whole fraction : List Char) (power : Int) : Bool :=
  let (kept, unfitWhole) := appendDigits 0 whole
  let (significand, unfitFraction) := appendDigits kept fraction
  let exponent := power + unfitWhole.length - (fraction.length - unfitFraction.length)
  significand == 0 || exponent < 0 ||
    (exponent ≤ 308 &&
      roundToDouble significand * roundToDouble (Nat.pow 10 exponent.toNat) < doubleBound)

end IdlDirectives.Json
