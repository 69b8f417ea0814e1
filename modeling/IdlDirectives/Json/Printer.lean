import IdlDirectives.Json.Basic

namespace IdlDirectives.Json

structure Layout where
  lineBreak : Nat → List Char
  colon : List Char

namespace Layout

def compact : Layout where
  lineBreak := fun _ => []
  colon := [':']

def pretty : Layout where
  lineBreak := fun depth => '\n' :: List.replicate (2 * depth) ' '
  colon := [':', ' ']

end Layout

def hexDigit (n : Nat) : Char :=
  if n < 10 then Char.ofNat ('0'.toNat + n) else Char.ofNat ('a'.toNat + (n - 10))

def escapeChar (c : Char) : List Char :=
  match c with
  | '"' => ['\\', '"']
  | '\\' => ['\\', '\\']
  | '\x08' => ['\\', 'b']
  | '\x0c' => ['\\', 'f']
  | '\n' => ['\\', 'n']
  | '\r' => ['\\', 'r']
  | '\t' => ['\\', 't']
  | _ =>
    if c.toNat < 0x20 then ['\\', 'u', '0', '0', hexDigit (c.toNat / 16), hexDigit (c.toNat % 16)]
    else [c]

def quote (value : String) : List Char :=
  '"' :: (value.toList.flatMap escapeChar ++ ['"'])

def writeInteger (n : Int) : List Char :=
  if n < 0 then '-' :: Nat.toDigits 10 n.natAbs else Nat.toDigits 10 n.natAbs

mutual

def write (layout : Layout) (depth : Nat) : Json → List Char
  | .null => ['n', 'u', 'l', 'l']
  | .bool true => ['t', 'r', 'u', 'e']
  | .bool false => ['f', 'a', 'l', 's', 'e']
  | .integer n => writeInteger n
  | .number literal => literal.toList
  | .text value => quote value
  | .array [] => ['[', ']']
  | .array (item :: rest) =>
    '[' :: (layout.lineBreak (depth + 1) ++ write layout (depth + 1) item ++
      writeItems layout (depth + 1) rest ++ layout.lineBreak depth ++ [']'])
  | .object [] => ['\x7b', '\x7d']
  | .object ((name, value) :: rest) =>
    '\x7b' :: (layout.lineBreak (depth + 1) ++ quote name ++ layout.colon ++
      write layout (depth + 1) value ++ writeMembers layout (depth + 1) rest ++
      layout.lineBreak depth ++ ['\x7d'])
  | .unreadable => []

def writeItems (layout : Layout) (depth : Nat) : List Json → List Char
  | [] => []
  | item :: rest =>
    ',' :: (layout.lineBreak depth ++ write layout depth item ++ writeItems layout depth rest)

def writeMembers (layout : Layout) (depth : Nat) : List (String × Json) → List Char
  | [] => []
  | (name, value) :: rest =>
    ',' :: (layout.lineBreak depth ++ quote name ++ layout.colon ++ write layout depth value ++
      writeMembers layout depth rest)

end

def render (layout : Layout) (v : Json) : String :=
  String.ofList (v.write layout 0)

end IdlDirectives.Json
