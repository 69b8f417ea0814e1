namespace IdlDirectives

/-- Only integers carry a meaning; every other number is kept as text. A value is unreadable whose form is
right but that no program value is read from: a number beyond the range of doubles, a string with half a
surrogate pair, or nesting deeper than a reader admits. -/
inductive Json where
  | null
  | bool (value : Bool)
  | integer (value : Int)
  | number (literal : String)
  | text (value : String)
  | array (items : List Json)
  | object (members : List (String × Json))
  | unreadable
deriving Inhabited

namespace Json

mutual

def isReadable : Json → Bool
  | .unreadable => false
  | .array items => areReadable items
  | .object members => haveReadable members
  | _ => true

def areReadable : List Json → Bool
  | [] => true
  | item :: rest => item.isReadable && areReadable rest

def haveReadable : List (String × Json) → Bool
  | [] => true
  | (_, value) :: rest => value.isReadable && haveReadable rest

end

mutual

def depth : Json → Nat
  | .array items => depthOfItems items + 1
  | .object members => depthOfMembers members + 1
  | _ => 0

def depthOfItems : List Json → Nat
  | [] => 0
  | item :: rest => max item.depth (depthOfItems rest)

def depthOfMembers : List (String × Json) → Nat
  | [] => 0
  | (_, value) :: rest => max value.depth (depthOfMembers rest)

end

end Json

end IdlDirectives
