import IdlDirectives.Proofs.Expression.Reading

namespace IdlDirectives.Expression

/-- A reader that keeps apart whether a group and whether a name may go on, instead of in a phase. -/
structure FlagReader where
  selection : Selection
  current : List String
  opened : List (List String)
  name : String
  acceptsGroup : Bool
  acceptsName : Bool

namespace FlagReader

def start : FlagReader := ⟨.whole, [], [], "", true, true⟩

def endName (f : FlagReader) : FlagReader :=
  if f.name.isEmpty then f
  else { f with selection := f.selection.insert (f.current ++ [f.name]), name := "" }

def step (f : FlagReader) (position : Nat) (c : Char) : Except ExpressionError FlagReader :=
  if c = '.' then
    if f.name.isEmpty then .error (.illegalDot position)
    else
      let below := f.current ++ [f.name]
      .ok ⟨f.selection.insert below, below, f.opened, "", true, true⟩
  else if c = '(' then
    if f.acceptsGroup then .ok { f with opened := f.current :: f.opened }
    else .error (.illegalOpen position)
  else if c = ')' then
    match f.opened with
    | [] => .error (.unmatchedClose position)
    | node :: outer =>
      .ok { f.endName with current := node, opened := outer, acceptsGroup := false, acceptsName := false }
  else if c = ',' then
    .ok { f.endName with current := f.opened.head?.getD [], acceptsGroup := true, acceptsName := true }
  else if f.acceptsName then .ok { f with name := f.name.push c, acceptsGroup := false }
  else .error (.illegalName position)

def run (f : FlagReader) (position : Nat) : List Char → Except ExpressionError FlagReader
  | [] => .ok f
  | c :: rest => do
    let next ← f.step position c
    next.run (position + 1) rest

def finish (f : FlagReader) : Except ExpressionError Selection :=
  if f.opened.isEmpty then .ok f.endName.selection else .error .unmatchedOpen

def parse (expression : String) : Except ExpressionError Selection := do
  let f ← start.run 0 expression.toList
  f.finish

end FlagReader

namespace Reader

def flags (r : Reader) : FlagReader where
  selection := r.selection
  current := r.current
  opened := r.opened
  name := r.name
  acceptsGroup := r.phase = .segment
  acceptsName := r.phase ≠ .closed

theorem flags_endName (r : Reader) : r.endName.flags = r.flags.endName := by
  unfold endName
  split
  · next empty => exact (if_pos empty).symm
  · next named => exact (if_neg named).symm

/-- The phases are the flags that a reader can come to: with them, it takes and refuses the same. -/
theorem step_flags (r : Reader) (position : Nat) (c : Char) :
    r.flags.step position c = (r.step position c).map flags := by
  have ended := r.flags_endName
  have group : r.flags.acceptsGroup = true ↔ r.phase = .segment := decide_eq_true_iff
  have name : r.flags.acceptsName = true ↔ r.phase ≠ .closed := decide_eq_true_iff
  have opened : r.flags.opened = r.opened := rfl
  rw [step, FlagReader.step, ← ended, opened]
  by_cases dot : c = '.'
  · rw [if_pos dot, if_pos dot]
    by_cases empty : r.name.isEmpty = true
    · rw [if_pos empty]
      exact if_pos empty
    · have named : r.endName =
          { r with selection := r.selection.insert (r.current ++ [r.name]), name := "" } := if_neg empty
      rw [if_neg empty, named]
      exact if_neg empty
  rw [if_neg dot, if_neg dot]
  by_cases opening : c = '('
  · rw [if_pos opening, if_pos opening]
    by_cases segment : r.phase = .segment
    · rw [if_pos segment, if_pos (group.mpr segment)]
      rfl
    · rw [if_neg segment, if_neg (mt group.mp segment)]
      rfl
  rw [if_neg opening, if_neg opening]
  by_cases closing : c = ')'
  · rw [if_pos closing, if_pos closing]
    cases r.opened with
    | nil => rfl
    | cons node outer => rfl
  rw [if_neg closing, if_neg closing]
  by_cases comma : c = ','
  · rw [if_pos comma, if_pos comma]
    rfl
  rw [if_neg comma, if_neg comma]
  by_cases closed : r.phase = .closed
  · rw [if_pos closed, if_neg (fun accepts => name.mp accepts closed)]
    rfl
  · rw [if_neg closed, if_pos (name.mpr closed), name.mpr closed]
    rfl

theorem run_flags (r : Reader) (position : Nat) (cs : List Char) :
    r.flags.run position cs = (r.run position cs).map flags := by
  induction cs generalizing r position with
  | nil => rfl
  | cons c cs ih =>
    rw [FlagReader.run, run, step_flags]
    cases r.step position c with
    | error e => rfl
    | ok next => exact ih next (position + 1)

theorem run_start_flags (cs : List Char) : FlagReader.start.run 0 cs = (start.run 0 cs).map flags :=
  start.run_flags 0 cs

theorem finish_flags (r : Reader) : r.flags.finish = r.finish := by
  rw [FlagReader.finish, ← flags_endName]
  rfl

end Reader

namespace FlagReader

theorem parse_eq (expression : String) : parse expression = Expression.parse expression := by
  rw [parse, Expression.parse, Reader.run_start_flags]
  cases Reader.start.run 0 expression.toList with
  | error e => rfl
  | ok r => exact r.finish_flags

/-- Where a group may begin, a name may begin and none has. -/
theorem accepts_of_run {cs : List Char} {f : FlagReader} (ran : start.run 0 cs = .ok f)
    (group : f.acceptsGroup = true) : f.acceptsName = true ∧ f.name = "" := by
  rw [Reader.run_start_flags] at ran
  cases read : Reader.start.run 0 cs with
  | error e =>
    rw [read] at ran
    cases ran
  | ok r =>
    rw [read] at ran
    cases ran
    have segment : r.phase = .segment := of_decide_eq_true group
    have consistent : r.Consistent := Reader.start_consistent.of_run read
    have unclosed : r.phase ≠ .closed := by rw [segment]; decide
    have unnamed : r.phase ≠ .name := by rw [segment]; decide
    exact ⟨decide_eq_true unclosed, consistent.named.mpr unnamed⟩

end FlagReader

end IdlDirectives.Expression
