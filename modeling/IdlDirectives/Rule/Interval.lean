import IdlDirectives.Rule.Basic

namespace IdlDirectives

namespace Interval

def leftBracket? : Char → Option Bool
  | '[' => some false
  | '(' | ']' => some true
  | _ => none

def rightBracket? : Char → Option Bool
  | ']' => some false
  | ')' | '[' => some true
  | _ => none

def takeLeft : List Char → Bool × List Char
  | [] => (false, [])
  | c :: rest =>
    match leftBracket? c with
    | some exclusive => (exclusive, rest)
    | none => (false, c :: rest)

def takeRight (cs : List Char) : Bool × List Char :=
  match cs.getLast?.bind rightBracket? with
  | some exclusive => (exclusive, cs.dropLast)
  | none => (false, cs)

def boundText? (piece : List Char) : Option String :=
  let text := Text.trim piece
  if text.isEmpty then none else some (String.ofList text)

end Interval

namespace Bounds

/-- A bound and its exclusion are there together or not at all. -/
def ofPieces (minimum : Option String) (exclusiveMinimum : Bool) (maximum : Option String)
    (exclusiveMaximum : Bool) : Bounds where
  minimum := minimum
  exclusiveMinimum := minimum.map (fun _ => exclusiveMinimum)
  maximum := maximum
  exclusiveMaximum := maximum.map (fun _ => exclusiveMaximum)

def parse (interval : String) : Except Rejection Bounds :=
  let (exclusiveMinimum, rest) := Interval.takeLeft interval.toList
  let (exclusiveMaximum, body) := Interval.takeRight rest
  let bounded (bounds : Bounds) : Except Rejection Bounds :=
    if bounds.isEmpty then .error (.emptyRange interval) else .ok bounds
  match (body.splitOnP (· == ',')).map Interval.boundText? with
  | [minimum] => bounded (ofPieces minimum exclusiveMinimum none exclusiveMaximum)
  | [minimum, maximum] => bounded (ofPieces minimum exclusiveMinimum maximum exclusiveMaximum)
  | _ => .error (.tooManyCommas interval)

def interval (b : Bounds) : String :=
  (if b.exclusiveMinimum = some true then "(" else "[") ++ b.minimum.getD "" ++ "," ++
    b.maximum.getD "" ++ (if b.exclusiveMaximum = some true then ")" else "]")

end Bounds

/-- With `@range <interval>` a number is bounded. A square bracket includes the bound beside it, unless it faces the
wrong way, and a round one excludes it. -/
def Rule.bounds (g : TypeGraph) (id : TypeId) : Rule where
  flag := "range"
  apply params annotations :=
    match g.resolve id with
    | .error cause => .reject annotations (.unresolved cause)
    | .ok resolved =>
      if !resolved.type.isNumber then .reject annotations (.typeMismatch .number resolved.type)
      else
        match Bounds.parse (String.join params) with
        | .error reason => .reject annotations reason
        | .ok bounds => ⟨{ annotations with bounds := some bounds }, []⟩

end IdlDirectives
