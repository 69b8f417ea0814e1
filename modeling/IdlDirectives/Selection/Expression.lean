import IdlDirectives.Selection.Basic

namespace IdlDirectives

inductive ExpressionError where
  | illegalDot (position : Nat)
  | illegalOpen (position : Nat)
  | unmatchedClose (position : Nat)
  | unmatchedOpen
  | illegalName (position : Nat)
deriving DecidableEq

namespace ExpressionError

def message : ExpressionError → String
  | .illegalDot position => "illegal use of '.' at position " ++ position.repr
  | .illegalOpen position => "illegal use of '(' at position " ++ position.repr
  | .unmatchedClose position =>
    "unbalanced parentheses, ')' at position " ++ position.repr ++ " without matching '('"
  | .unmatchedOpen => "unbalanced parentheses, '(' without matching ')'"
  | .illegalName position => "illegal field name path at position " ++ position.repr

end ExpressionError

namespace Expression

/-- A name or a group may begin, a name has begun and goes on, or a group has ended and neither may follow
before a comma. -/
inductive Phase where
  | segment
  | name
  | closed
deriving DecidableEq

/-- What there is of an expression that is read up to some character. -/
structure Reader where
  selection : Selection
  current : List String
  /-- The nodes at which the open groups were opened, the innermost first. -/
  opened : List (List String)
  name : String
  phase : Phase
deriving DecidableEq

namespace Reader

def start : Reader where
  selection := .whole
  current := []
  opened := []
  name := ""
  phase := .segment

def endName (r : Reader) : Reader :=
  if r.name.isEmpty then r
  else { r with selection := r.selection.insert (r.current ++ [r.name]), name := "" }

def step (r : Reader) (position : Nat) (c : Char) : Except ExpressionError Reader :=
  if c = '.' then
    if r.name.isEmpty then .error (.illegalDot position)
    else .ok { r.endName with current := r.current ++ [r.name], phase := .segment }
  else if c = '(' then
    if r.phase = .segment then .ok { r with opened := r.current :: r.opened }
    else .error (.illegalOpen position)
  else if c = ')' then
    match r.opened with
    | [] => .error (.unmatchedClose position)
    | node :: outer => .ok { r.endName with current := node, opened := outer, phase := .closed }
  else if c = ',' then
    .ok { r.endName with current := r.opened.head?.getD [], phase := .segment }
  else if r.phase = .closed then .error (.illegalName position)
  else .ok { r with name := r.name.push c, phase := .name }

def run (r : Reader) (position : Nat) : List Char → Except ExpressionError Reader
  | [] => .ok r
  | c :: rest => do
    let next ← r.step position c
    next.run (position + 1) rest

def finish (r : Reader) : Except ExpressionError Selection :=
  if r.opened.isEmpty then .ok r.endName.selection else .error .unmatchedOpen

end Reader

def parse (expression : String) : Except ExpressionError Selection := do
  let r ← Reader.start.run 0 expression.toList
  r.finish

/-- Takes the wrapper `keys_of(...)` off a path parameter, and says whether it was there. -/
def unwrapKeys (param : String) : String × Bool :=
  match List.isPrefixOf? "keys_of(".toList param.toList with
  | some inner =>
    if inner.getLast? = some ')' then (String.ofList inner.dropLast, true) else (param, false)
  | none => (param, false)

end Expression

end IdlDirectives
