import IdlDirectives.Json.Basic
import IdlDirectives.Json.Range

namespace IdlDirectives.Json

def isSpace (c : Char) : Bool :=
  c == ' ' || c == '\n' || c == '\t' || c == '\r'

def skipSpace (cs : List Char) : List Char :=
  cs.dropWhile isSpace

def hexValue? (c : Char) : Option Nat :=
  if '0' ≤ c && c ≤ '9' then some (c.toNat - '0'.toNat)
  else if 'a' ≤ c && c ≤ 'f' then some (c.toNat - 'a'.toNat + 10)
  else if 'A' ≤ c && c ≤ 'F' then some (c.toNat - 'A'.toNat + 10)
  else none

def codeUnit? (a b c d : Char) : Option Nat := do
  let a ← hexValue? a
  let b ← hexValue? b
  let c ← hexValue? c
  let d ← hexValue? d
  return ((a * 16 + b) * 16 + c) * 16 + d

inductive StringUnit where
  | char (c : Char)
  | highHalf (offset : Nat)
  | lowHalf (offset : Nat)
deriving DecidableEq

def StringUnit.ofCodeUnit (code : Nat) : StringUnit :=
  if 0xD800 ≤ code && code < 0xDC00 then .highHalf (code - 0xD800)
  else if 0xDC00 ≤ code && code < 0xE000 then .lowHalf (code - 0xDC00)
  else .char (Char.ofNat code)

def shortEscape? : Char → Option Char
  | '"' => some '"'
  | '\\' => some '\\'
  | '/' => some '/'
  | 'b' => some '\x08'
  | 'f' => some '\x0c'
  | 'n' => some '\n'
  | 'r' => some '\r'
  | 't' => some '\t'
  | _ => none

def readUnits : List Char → Option (List StringUnit × List Char)
  | [] => none
  | c :: rest =>
    if c == '"' then some ([], rest)
    else if c == '\\' then
      match rest with
      | [] => none
      | 'u' :: h₁ :: h₂ :: h₃ :: h₄ :: after => do
        let code ← codeUnit? h₁ h₂ h₃ h₄
        let (units, rest) ← readUnits after
        return (.ofCodeUnit code :: units, rest)
      | e :: after => do
        let c ← shortEscape? e
        let (units, rest) ← readUnits after
        return (.char c :: units, rest)
    else if c.toNat < 0x20 then none
    else do
      let (units, rest) ← readUnits rest
      return (.char c :: units, rest)

/-- The text that the spellings make, unless half a pair is left alone. -/
def joinUnits? : List StringUnit → Option (List Char)
  | [] => some []
  | .char c :: rest => (joinUnits? rest).map (c :: ·)
  | .highHalf high :: .lowHalf low :: rest =>
    (joinUnits? rest).map (Char.ofNat (0x10000 + high * 0x400 + low) :: ·)
  | _ :: _ => none

def readString (cs : List Char) : Option (Option String × List Char) := do
  let (units, rest) ← readUnits cs
  return ((joinUnits? units).map String.ofList, rest)

def readFraction : List Char → Option (List Char × List Char)
  | '.' :: rest =>
    let digits := rest.takeWhile Char.isDigit
    if digits.isEmpty then none else some (digits, rest.dropWhile Char.isDigit)
  | cs => some ([], cs)

def readExponent : List Char → Option ((List Char × List Char) × List Char)
  | e :: rest =>
    if e == 'e' || e == 'E' then
      let (sign, rest) :=
        match rest with
        | '+' :: after => (['+'], after)
        | '-' :: after => (['-'], after)
        | _ => ([], rest)
      let digits := rest.takeWhile Char.isDigit
      if digits.isEmpty then none else some ((sign, digits), rest.dropWhile Char.isDigit)
    else some (([], []), e :: rest)
  | [] => some (([], []), [])

def readMagnitude (negative : Bool) (cs : List Char) : Option (Json × List Char) := do
  let whole := cs.takeWhile Char.isDigit
  if whole.isEmpty || (whole.length > 1 && whole.head? == some '0') then none
  else
    let (fraction, rest) ← readFraction (cs.dropWhile Char.isDigit)
    let ((sign, exponent), rest) ← readExponent rest
    let power : Int := if sign == ['-'] then -(digitsValue exponent : Int) else digitsValue exponent
    let value := digitsValue whole
    if !inRange whole fraction power then return (.unreadable, rest)
    else if fraction.isEmpty && exponent.isEmpty && !(negative && value == 0) then
      return (.integer (if negative then -(value : Int) else value), rest)
    else
      let point := if fraction.isEmpty then [] else '.' :: fraction
      let scale := if exponent.isEmpty then [] else 'e' :: (sign ++ exponent)
      let digits := whole ++ point ++ scale
      return (.number (String.ofList (if negative then '-' :: digits else digits)), rest)

def readNumber : List Char → Option (Json × List Char)
  | '-' :: rest => readMagnitude true rest
  | cs => readMagnitude false cs

def held (limit depth : Nat) (value : Option Json) : Json :=
  if depth < limit then value.getD .unreadable else .unreadable

mutual

def readValue (limit : Nat) : Nat → Nat → List Char → Option (Json × List Char)
  | 0, _, _ => none
  | fuel + 1, depth, cs =>
    match skipSpace cs with
    | [] => none
    | c :: rest =>
      if c == '"' then do
        let (value, rest) ← readString rest
        return ((value.map Json.text).getD .unreadable, rest)
      else if c == '[' then
        match skipSpace rest with
        | ']' :: after => some (held limit depth (some (.array [])), after)
        | _ => do
          let (items, after) ← readItems limit fuel (depth + 1) rest
          return (held limit depth (some (.array items)), after)
      else if c == '\x7b' then
        match skipSpace rest with
        | '\x7d' :: after => some (held limit depth (some (.object [])), after)
        | _ => do
          let (members, after) ← readMembers limit fuel (depth + 1) rest
          return (held limit depth (members.map Json.object), after)
      else if c == 'n' then
        (List.isPrefixOf? ['u', 'l', 'l'] rest).map ((.null, ·))
      else if c == 't' then
        (List.isPrefixOf? ['r', 'u', 'e'] rest).map ((.bool true, ·))
      else if c == 'f' then
        (List.isPrefixOf? ['a', 'l', 's', 'e'] rest).map ((.bool false, ·))
      else readNumber (c :: rest)

def readItems (limit : Nat) : Nat → Nat → List Char → Option (List Json × List Char)
  | 0, _, _ => none
  | fuel + 1, depth, cs => do
    let (item, rest) ← readValue limit fuel depth cs
    match skipSpace rest with
    | ',' :: after =>
      let (items, rest) ← readItems limit fuel depth after
      return (item :: items, rest)
    | ']' :: after => return ([item], after)
    | _ => none

def readMembers (limit : Nat) :
    Nat → Nat → List Char → Option (Option (List (String × Json)) × List Char)
  | 0, _, _ => none
  | fuel + 1, depth, cs =>
    match skipSpace cs with
    | '"' :: rest => do
      let (name, rest) ← readString rest
      match skipSpace rest with
      | ':' :: rest =>
        let (value, rest) ← readValue limit fuel depth rest
        match skipSpace rest with
        | ',' :: after =>
          let (members, rest) ← readMembers limit fuel depth after
          return (return (← name, value) :: (← members), rest)
        | '\x7d' :: after => return (name.map (fun name => [(name, value)]), after)
        | _ => none
      | _ => none
    | _ => none

end

/-- The value of a whole text. Each step of the reader passes a character or goes from a bracket to
the first value inside it, so twice the length of the text is enough. -/
def readChars? (limit : Nat) (cs : List Char) : Option Json :=
  match readValue limit (2 * cs.length + 2) 0 cs with
  | some (value, rest) => if (skipSpace rest).isEmpty then some value else none
  | none => none

def nestingLimit : Nat := 127

def parse? (text : String) : Option Json :=
  readChars? nestingLimit text.toList

end IdlDirectives.Json
