import IdlDirectives.Proofs.Expression.Language

namespace IdlDirectives

inductive ExpressionError.At : ExpressionError → Nat → Char → Prop where
  | dot (position : Nat) : At (.illegalDot position) position '.'
  | opening (position : Nat) : At (.illegalOpen position) position '('
  | closing (position : Nat) : At (.unmatchedClose position) position ')'
  | plain {c : Char} (position : Nat) (plain : c ∉ Expression.delimiters) :
    At (.illegalName position) position c

theorem ExpressionError.At.position_eq {error : ExpressionError} {position position' : Nat} {c c' : Char}
    (told : error.At position c) (told' : error.At position' c') : position = position' := by
  cases told <;> cases told' <;> rfl

theorem ExpressionError.At.eq_illegalOpen {error : ExpressionError} {position : Nat}
    (told : error.At position '(') : error = .illegalOpen position := by
  cases told with
  | opening => rfl
  | plain _ plain => exact absurd (by decide) plain

theorem ExpressionError.At.eq_illegalName {error : ExpressionError} {position : Nat} {c : Char}
    (told : error.At position c) (plain : c ∉ Expression.delimiters) : error = .illegalName position := by
  cases told with
  | dot => exact absurd (by decide) plain
  | opening => exact absurd (by decide) plain
  | closing => exact absurd (by decide) plain
  | plain => rfl

namespace Expression

namespace Reader

inductive Refuses (r : Reader) (position : Nat) : Char → ExpressionError → Prop where
  | dot (unnamed : r.name = "") : Refuses r position '.' (.illegalDot position)
  | opening (named : r.phase ≠ .segment) : Refuses r position '(' (.illegalOpen position)
  | closing (outside : r.opened = []) : Refuses r position ')' (.unmatchedClose position)
  | plain {c : Char} (plain : c ∉ delimiters) (closed : r.phase = .closed) :
    Refuses r position c (.illegalName position)

variable {r : Reader} {position : Nat} {c : Char} {error : ExpressionError}

theorem Refuses.at (refuses : r.Refuses position c error) : error.At position c := by
  cases refuses with
  | dot => exact .dot position
  | opening => exact .opening position
  | closing => exact .closing position
  | plain plain => exact .plain position plain

theorem refuses_of_step (failed : r.step position c = .error error) : r.Refuses position c error := by
  unfold step at failed
  split at failed
  · next dot =>
    subst dot
    split at failed
    · next unnamed => cases failed; exact .dot (String.isEmpty_iff.mp unnamed)
    · cases failed
  · split at failed
    · next _ opening =>
      subst opening
      split at failed
      · cases failed
      · next named => cases failed; exact .opening named
    · split at failed
      · next _ _ closing =>
        subst closing
        split at failed
        · next outside => cases failed; exact .closing outside
        · cases failed
      · split at failed
        · cases failed
        · next notDot notOpening notClosing notComma =>
          split at failed
          · next closed =>
            cases failed
            exact .plain (by simp [delimiters, notDot, notOpening, notClosing, notComma]) closed
          · cases failed

theorem run_append_of_ok {before : List Char} {middle : Reader}
    (ran : r.run position before = .ok middle) (rest : List Char) :
    r.run position (before ++ rest) = middle.run (position + before.length) rest := by
  induction before generalizing r position with
  | nil =>
    cases ran
    rfl
  | cons c before ih =>
    obtain ⟨next, moves, ran⟩ := run_cons.mp ran
    have stepped : r.step position c = .ok next := step_eq_ok.mpr moves
    have onward : position + 1 + before.length = position + (c :: before).length := by
      rw [List.length_cons]
      omega
    rw [List.cons_append, run, stepped, ← onward]
    exact ih ran

theorem run_cons_of_error {rest : List Char} (failed : r.step position c = .error error) :
    r.run position (c :: rest) = .error error := by
  rw [run, failed]
  rfl

theorem exists_step_eq_error {cs : List Char} (failed : r.run position cs = .error error) :
    ∃ before c rest middle, cs = before ++ c :: rest ∧ r.run position before = .ok middle ∧
      middle.step (position + before.length) c = .error error := by
  induction cs generalizing r position with
  | nil => cases failed
  | cons first cs ih =>
    cases stepped : r.step position first with
    | error cause =>
      have same : cause = error := Except.error.inj ((run_cons_of_error stepped).symm.trans failed)
      exact ⟨[], first, cs, r, rfl, rfl, same ▸ stepped⟩
    | ok next =>
      have later : next.run (position + 1) cs = .error error := by
        rw [← failed, run, stepped]
        rfl
      obtain ⟨before, c, rest, middle, rfl, ran, refused⟩ := ih later
      have onward : position + 1 + before.length = position + (first :: before).length := by
        rw [List.length_cons]
        omega
      rw [onward] at refused
      exact ⟨first :: before, c, rest, middle, rfl, run_cons.mpr ⟨next, step_eq_ok.mp stepped, ran⟩, refused⟩

def completion (r : Reader) : List Char :=
  List.replicate r.opened.length ')'

theorem run_completion (r : Reader) (position : Nat) :
    ∃ final, r.run position r.completion = .ok final ∧ final.opened = [] := by
  generalize groups : r.opened = opened
  induction opened generalizing r position with
  | nil => exact ⟨r, by rw [completion, groups]; rfl, groups⟩
  | cons node outer ih =>
    let closed : Reader := { r.endName with current := node, opened := outer, phase := .closed }
    obtain ⟨final, ran, done⟩ := ih closed (position + 1) rfl
    refine ⟨final, ?_, done⟩
    rw [completion, groups, List.length_cons, List.replicate_succ]
    exact run_cons.mpr ⟨closed, .closing groups, ran⟩

theorem opened_length_run {cs : List Char} {after : Reader} (ran : r.run position cs = .ok after) :
    after.opened.length + cs.count ')' = r.opened.length + cs.count '(' := by
  induction cs generalizing r position with
  | nil =>
    cases ran
    simp
  | cons c cs ih =>
    obtain ⟨next, moves, ran⟩ := run_cons.mp ran
    have rest := ih ran
    cases moves with
    | dot named => simpa using rest
    | opening segment =>
      rw [List.length_cons] at rest
      simp only [List.count_cons_self, List.count_cons_of_ne (show '(' ≠ ')' by decide)]
      omega
    | @closing node outer opened =>
      have rest : after.opened.length + cs.count ')' = outer.length + cs.count '(' := rest
      simp only [List.count_cons_self, List.count_cons_of_ne (show ')' ≠ '(' by decide), opened,
        List.length_cons]
      omega
    | comma => simpa using rest
    | plain plain unclosed =>
      have other : c ≠ ')' ∧ c ≠ '(' := by
        simp only [delimiters, List.mem_cons, not_or] at plain
        exact ⟨plain.2.2.1, plain.2.1⟩
      rw [List.count_cons_of_ne other.1, List.count_cons_of_ne other.2]
      exact rest

end Reader

def Readable (expression : String) : Prop :=
  ∃ s, parse expression = .ok s

/-- A text can be completed exactly if the reader gets to its end. -/
theorem readable_append_iff {text : String} :
    (∃ more, Readable (text ++ more)) ↔ ∃ r, Reader.start.run 0 text.toList = .ok r := by
  constructor
  · intro completed
    obtain ⟨more, s, parsed⟩ := completed
    obtain ⟨final, ran, -⟩ := parse_eq_ok.mp parsed
    rw [String.toList_append] at ran
    obtain ⟨middle, ran, -⟩ := Reader.run_append.mp ran
    exact ⟨middle, ran⟩
  · intro accepted
    obtain ⟨r, ran⟩ := accepted
    obtain ⟨final, completed, done⟩ := r.run_completion (0 + text.toList.length)
    refine ⟨String.ofList r.completion, final.endName.selection, parse_eq_ok.mpr ⟨final, ?_, done, rfl⟩⟩
    rw [String.toList_append, String.toList_ofList]
    exact Reader.run_append.mpr ⟨r, ran, completed⟩

theorem parse_eq_error {expression : String} {error : ExpressionError} :
    parse expression = .error error ↔
      Reader.start.run 0 expression.toList = .error error ∨
        (error = .unmatchedOpen ∧
          ∃ r, Reader.start.run 0 expression.toList = .ok r ∧ r.opened ≠ []) := by
  simp only [parse, Bind.bind, Except.bind]
  cases Reader.start.run 0 expression.toList with
  | error cause => simp
  | ok r =>
    simp only [Reader.finish, List.isEmpty_iff]
    split
    · next closed => simp [closed]
    · next opened => simp [opened, eq_comm]

theorem parse_error_at {expression : String} {error : ExpressionError}
    (failed : parse expression = .error error) (positioned : error ≠ .unmatchedOpen) :
    ∃ position c, error.At position c ∧ expression.toList[position]? = some c := by
  rcases parse_eq_error.mp failed with ran | ⟨unmatched, -⟩
  · obtain ⟨before, c, rest, middle, same, -, refused⟩ := Reader.exists_step_eq_error ran
    rw [Nat.zero_add] at refused
    refine ⟨before.length, c, (Reader.refuses_of_step refused).at, ?_⟩
    rw [same]
    simp
  · exact absurd unmatched positioned

/-- An error tells the first character that cannot be right: what is before it can be completed, and
nothing that goes on with it can be read. The one error without a position says that groups are open
at the end. -/
theorem parse_fails_earliest (expression : String) :
    (∀ error, parse expression = .error error → error ≠ .unmatchedOpen →
      ∃ position c, error.At position c ∧ position < expression.length ∧
        expression.toList[position]? = some c ∧
        (∃ more, Readable (String.ofList (expression.toList.take position) ++ more)) ∧
        ∀ other : String, expression.toList.take (position + 1) <+: other.toList → ¬ Readable other) ∧
    (parse expression = .error .unmatchedOpen ↔
      (∃ more, Readable (expression ++ more)) ∧
        expression.toList.count ')' < expression.toList.count '(') := by
  constructor
  · intro error failed positioned
    have ran : Reader.start.run 0 expression.toList = .error error := by
      rcases parse_eq_error.mp failed with ran | ⟨unmatched, -⟩
      · exact ran
      · exact absurd unmatched positioned
    obtain ⟨before, c, rest, middle, same, accepted, refused⟩ := Reader.exists_step_eq_error ran
    rw [Nat.zero_add] at refused
    refine ⟨before.length, c, (Reader.refuses_of_step refused).at, ?_, ?_, ?_, ?_⟩
    · rw [← String.length_toList, same]
      simp
    · rw [same]
      simp
    · rw [same, List.take_left]
      exact readable_append_iff.mpr ⟨middle, by rw [String.toList_ofList]; exact accepted⟩
    · intro other starts
      have first : expression.toList.take (before.length + 1) = before ++ [c] := by
        rw [same, List.append_cons]
        exact List.take_left' (by simp)
      rw [first] at starts
      obtain ⟨more, text⟩ := starts
      intro readable
      obtain ⟨s, parsed⟩ := readable
      obtain ⟨final, finished, -⟩ := parse_eq_ok.mp parsed
      rw [← text, List.append_assoc, Reader.run_append_of_ok accepted, Nat.zero_add] at finished
      rw [List.singleton_append, Reader.run_cons_of_error refused] at finished
      cases finished
  · rw [readable_append_iff, parse_eq_error]
    constructor
    · intro failed
      rcases failed with ran | ⟨-, r, ran, opened⟩
      · obtain ⟨before, c, rest, middle, -, -, refused⟩ := Reader.exists_step_eq_error ran
        cases Reader.refuses_of_step refused
      · have groups : r.opened.length + expression.toList.count ')' = 0 + expression.toList.count '(' :=
          Reader.opened_length_run ran
        have some_group : 0 < r.opened.length := List.length_pos_iff.mpr opened
        exact ⟨⟨r, ran⟩, by omega⟩
    · intro open_groups
      obtain ⟨⟨r, ran⟩, more⟩ := open_groups
      have groups : r.opened.length + expression.toList.count ')' = 0 + expression.toList.count '(' :=
        Reader.opened_length_run ran
      have some_group : 0 < r.opened.length := by omega
      exact .inr ⟨rfl, r, ran, List.length_pos_iff.mp some_group⟩

theorem parse_fails_earliest_closed :
    parse "a.(b)c" = .error (.illegalName 5) ∧
      ∃ position c, (ExpressionError.illegalName 5).At position c ∧ position < "a.(b)c".length ∧
        "a.(b)c".toList[position]? = some c ∧
        (∃ more, Readable (String.ofList ("a.(b)c".toList.take position) ++ more)) ∧
        ∀ other : String, "a.(b)c".toList.take (position + 1) <+: other.toList → ¬ Readable other := by
  have failed : parse "a.(b)c" = .error (.illegalName 5) := rfl
  exact ⟨failed, (parse_fails_earliest "a.(b)c").1 _ failed (by decide)⟩

end Expression

end IdlDirectives
