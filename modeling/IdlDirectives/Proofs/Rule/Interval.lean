import IdlDirectives.Proofs.Directive
import IdlDirectives.Rule.Interval
import Mathlib.Data.List.TakeWhile

namespace IdlDirectives

namespace Interval

def leftBrackets : List Char := ['[', '(', ']']

def rightBrackets : List Char := [']', ')', '[']

/-- The bracket that a text has at its left end, if any, then the one that is left at its right end, if
any, and what stands between them. -/
structure Framed (text : List Char) (left : Option Char) (body : List Char) (right : Option Char) :
    Prop where
  whole : text = left.toList ++ (body ++ right.toList)
  opens : ∀ c ∈ left, c ∈ leftBrackets
  unopened : left = none → ∀ c ∈ text.head?, c ∉ leftBrackets
  closes : ∀ c ∈ right, c ∈ rightBrackets
  unclosed : right = none → ∀ c ∈ body.getLast?, c ∉ rightBrackets

/-- The two sides of a comma. Without one the text is all on the first side. -/
inductive Halves : List Char → List Char → List Char → Prop
  | whole {body : List Char} (plain : ',' ∉ body) : Halves body body []
  | parted {before after : List Char} (plain : ',' ∉ before) (plain' : ',' ∉ after) :
    Halves (before ++ ',' :: after) before after

/-- The bound beside a round bracket is excluded, and so is one beside a square bracket that faces the
wrong way. -/
def excludesLeft (left : Option Char) : Bool :=
  left = some '(' ∨ left = some ']'

def excludesRight (right : Option Char) : Bool :=
  right = some ')' ∨ right = some '['

def IsBlank (piece : List Char) : Prop :=
  ∀ c ∈ piece, Text.isBlank c = true

instance : DecidablePred IsBlank :=
  fun _ => decidable_of_iff _ List.all_eq_true

section Brackets

theorem leftBracket?_eq_none {c : Char} (plain : c ∉ leftBrackets) : leftBracket? c = none := by
  unfold leftBracket?
  split
  · exact absurd (by decide) plain
  · exact absurd (by decide) plain
  · exact absurd (by decide) plain
  · rfl

theorem rightBracket?_eq_none {c : Char} (plain : c ∉ rightBrackets) : rightBracket? c = none := by
  unfold rightBracket?
  split
  · exact absurd (by decide) plain
  · exact absurd (by decide) plain
  · exact absurd (by decide) plain
  · rfl

theorem leftBracket?_of_mem {c : Char} (member : c ∈ leftBrackets) :
    leftBracket? c = some (excludesLeft (some c)) := by
  simp only [leftBrackets, List.mem_cons, List.not_mem_nil, or_false] at member
  rcases member with rfl | rfl | rfl <;> rfl

theorem rightBracket?_of_mem {c : Char} (member : c ∈ rightBrackets) :
    rightBracket? c = some (excludesRight (some c)) := by
  simp only [rightBrackets, List.mem_cons, List.not_mem_nil, or_false] at member
  rcases member with rfl | rfl | rfl <;> rfl

variable {text body : List Char} {left right : Option Char}

theorem Framed.takeLeft_eq (framed : Framed text left body right) :
    takeLeft text = (excludesLeft left, body ++ right.toList) := by
  obtain ⟨whole, opens, unopened, -, -⟩ := framed
  cases left with
  | some c =>
    rw [whole]
    simp only [Option.toList_some, List.singleton_append, takeLeft, leftBracket?_of_mem (opens c rfl)]
  | none =>
    have same : text = body ++ right.toList := whole
    rw [← same]
    cases text with
    | nil => rfl
    | cons c rest => simp only [takeLeft, leftBracket?_eq_none (unopened rfl c rfl)]; rfl

theorem Framed.takeRight_eq (framed : Framed text left body right) :
    takeRight (body ++ right.toList) = (excludesRight right, body) := by
  obtain ⟨-, -, -, closes, unclosed⟩ := framed
  cases right with
  | some c =>
    have last : (body ++ [c]).getLast?.bind rightBracket? = some (excludesRight (some c)) := by
      rw [List.getLast?_concat]
      exact rightBracket?_of_mem (closes c rfl)
    simp only [Option.toList_some, takeRight, last, List.dropLast_concat]
  | none =>
    have last : body.getLast?.bind rightBracket? = none := by
      cases ended : body.getLast? with
      | none => rfl
      | some c => exact rightBracket?_eq_none (unclosed rfl c ended)
    simp only [Option.toList_none, List.append_nil, takeRight, last]
    rfl

theorem exists_framed (text : List Char) : ∃ left body right, Framed text left body right := by
  have opened : ∃ left rest, text = left.toList ++ rest ∧ (∀ c ∈ left, c ∈ leftBrackets) ∧
      (left = none → ∀ c ∈ text.head?, c ∉ leftBrackets) := by
    cases text with
    | nil => exact ⟨none, [], rfl, nofun, fun _ => nofun⟩
    | cons c rest =>
      by_cases bracket : c ∈ leftBrackets
      · refine ⟨some c, rest, rfl, ?_, nofun⟩
        rintro _ ⟨⟩
        exact bracket
      · refine ⟨none, c :: rest, rfl, nofun, fun _ => ?_⟩
        rintro _ ⟨⟩
        exact bracket
  obtain ⟨left, rest, whole, opens, unopened⟩ := opened
  have closed : ∃ body right, rest = body ++ right.toList ∧ (∀ c ∈ right, c ∈ rightBrackets) ∧
      (right = none → ∀ c ∈ body.getLast?, c ∉ rightBrackets) := by
    by_cases bracket : ∃ c ∈ rest.getLast?, c ∈ rightBrackets
    · obtain ⟨c, ended, bracket⟩ := bracket
      obtain ⟨body, rfl⟩ := List.getLast?_eq_some_iff.mp ended
      refine ⟨body, some c, rfl, ?_, nofun⟩
      rintro _ ⟨⟩
      exact bracket
    · refine ⟨rest, none, (List.append_nil rest).symm, nofun, fun _ c ended member => ?_⟩
      exact bracket ⟨c, ended, member⟩
  obtain ⟨body, right, rfl, closes, unclosed⟩ := closed
  exact ⟨left, body, right, whole, opens, unopened, closes, unclosed⟩

theorem Framed.count_comma (framed : Framed text left body right) : text.count ',' = body.count ',' := by
  have opening : left.toList.count ',' = 0 := by
    refine List.count_eq_zero.mpr (fun member => ?_)
    have bracket := framed.opens ',' (Option.mem_toList.mp member)
    exact absurd bracket (by decide)
  have closing : right.toList.count ',' = 0 := by
    refine List.count_eq_zero.mpr (fun member => ?_)
    have bracket := framed.closes ',' (Option.mem_toList.mp member)
    exact absurd bracket (by decide)
  rw [framed.whole, List.count_append, List.count_append, opening, closing, Nat.zero_add, Nat.add_zero]

end Brackets

section Commas

theorem halves_or_more (body : List Char) :
    (body.count ',' < 2 ∧ ∃ before after, Halves body before after) ∨
      2 ≤ body.count ',' ∧ ∃ first second third rest,
        body.splitOn ',' = first :: second :: third :: rest := by
  by_cases comma : ',' ∈ body
  · obtain ⟨before, after, rfl, plain⟩ := List.eq_append_cons_of_mem comma
    have counted : (before ++ ',' :: after).count ',' = after.count ',' + 1 := by
      rw [List.count_append, List.count_eq_zero.mpr plain, List.count_cons_self, Nat.zero_add]
    by_cases again : ',' ∈ after
    · obtain ⟨middle, last, rfl, plain'⟩ := List.eq_append_cons_of_mem again
      have positive : 0 < (middle ++ ',' :: last).count ',' := List.count_pos_iff.mpr again
      obtain ⟨third, rest, pieces⟩ := List.exists_cons_of_ne_nil (List.splitOn_ne_nil ',' last)
      refine .inr ⟨by omega, before, middle, third, rest, ?_⟩
      rw [List.splitOn_append_cons_self_of_not_mem plain, List.splitOn_append_cons_self_of_not_mem plain',
        pieces]
    · have none : after.count ',' = 0 := List.count_eq_zero.mpr again
      exact .inl ⟨by omega, before, after, .parted plain again⟩
  · have none : body.count ',' = 0 := List.count_eq_zero.mpr comma
    exact .inl ⟨by omega, body, [], .whole comma⟩

end Commas

section Bounds

variable {piece : List Char}

theorem trimStart_eq_nil : Text.trimStart piece = [] ↔ IsBlank piece :=
  List.dropWhile_eq_nil_iff

theorem trim_eq_nil : Text.trim piece = [] ↔ IsBlank piece := by
  constructor
  · intro nothing
    rw [← trimStart_eq_nil]
    cases started : Text.trimStart piece with
    | nil => rfl
    | cons c rest =>
      -- the first character that is not blank stays
      have solid := Text.head?_trimStart piece c (by rw [started]; rfl)
      rw [Text.trim, started, show c :: rest = [c] ++ rest from rfl, Text.trimEnd_append] at nothing
      split at nothing
      · rw [Text.trimEnd_solid (by simpa using solid)] at nothing
        cases nothing
      · cases nothing
  · intro blank
    rw [Text.trim, trimStart_eq_nil.mpr blank]
    rfl

theorem trim_trim (piece : List Char) : Text.trim (Text.trim piece) = Text.trim piece := by
  have start : Text.trimStart (Text.trim piece) = Text.trim piece :=
    Text.trimStart_eq_self (Text.head?_trim piece)
  have stop : Text.trimEnd (Text.trim piece) = Text.trim piece :=
    Text.trimEnd_eq_self (Text.getLast?_trimEnd (Text.trimStart piece))
  rw [Text.trim, start, stop]

theorem boundText?_eq (piece : List Char) :
    boundText? piece = if IsBlank piece then none else some (String.ofList (Text.trim piece)) := by
  simp only [boundText?, List.isEmpty_iff, trim_eq_nil]

structure IsBound (bound? : Option String) : Prop where
  trimmed : boundText? (bound?.getD "").toList = bound?
  plain : ',' ∉ (bound?.getD "").toList

theorem isBound_boundText? (plain : ',' ∉ piece) : IsBound (boundText? piece) := by
  rw [boundText?_eq]
  split
  · exact ⟨rfl, by simp⟩
  · next some =>
    have kept : ¬ IsBlank (Text.trim piece) := by rwa [← trim_eq_nil, trim_trim, trim_eq_nil]
    refine ⟨?_, ?_⟩
    · rw [Option.getD_some, String.toList_ofList, boundText?_eq, if_neg kept, trim_trim]
    · rw [Option.getD_some, String.toList_ofList]
      exact fun comma => plain ((Text.trim_sublist piece).subset comma)

end Bounds

end Interval

namespace Bounds

open IdlDirectives.Interval

variable {text : String} {left right : Option Char} {body before after : List Char}

def ofHalves (left : Option Char) (before after : List Char) (right : Option Char) : Bounds :=
  ofPieces (boundText? before) (excludesLeft left) (boundText? after) (excludesRight right)

theorem isEmpty_ofHalves (left : Option Char) (before after : List Char) (right : Option Char) :
    (ofHalves left before after right).isEmpty = true ↔ IsBlank before ∧ IsBlank after := by
  simp [isEmpty, ofHalves, ofPieces, boundText?_eq]

theorem parse_of_more (framed : Framed text.toList left body right) {first second third : List Char}
    {rest : List (List Char)} (pieces : body.splitOn ',' = first :: second :: third :: rest) :
    parse text = .error (.tooManyCommas text) := by
  rw [List.splitOn_eq_splitOnP] at pieces
  simp only [parse, framed.takeLeft_eq, framed.takeRight_eq, pieces, List.map_cons]

theorem parse_of_halves (framed : Framed text.toList left body right) (halves : Halves body before after) :
    parse text =
      if (ofHalves left before after right).isEmpty then .error (.emptyRange text)
      else .ok (ofHalves left before after right) := by
  cases halves with
  | whole plain =>
    have pieces : body.splitOnP (· == ',') = [body] := List.splitOn_eq_singleton plain
    simp only [parse, framed.takeLeft_eq, framed.takeRight_eq, pieces, List.map_cons, List.map_nil]
    rfl
  | parted plain plain' =>
    have pieces : (before ++ ',' :: after).splitOnP (· == ',') = [before, after] := by
      rw [← List.splitOn_eq_splitOnP, List.splitOn_append_cons_self_of_not_mem plain,
        List.splitOn_eq_singleton plain']
    simp only [parse, framed.takeLeft_eq, framed.takeRight_eq, pieces, List.map_cons, List.map_nil]
    rfl

theorem parse_cases (text : String) :
    (2 ≤ text.toList.count ',' ∧ parse text = .error (.tooManyCommas text)) ∨
      text.toList.count ',' < 2 ∧ ∃ left body right before after,
        Framed text.toList left body right ∧ Halves body before after := by
  obtain ⟨left, body, right, framed⟩ := exists_framed text.toList
  rw [framed.count_comma]
  rcases halves_or_more body with ⟨few, before, after, halves⟩ | ⟨many, first, second, third, rest, pieces⟩
  · exact .inr ⟨few, left, body, right, before, after, framed, halves⟩
  · exact .inl ⟨many, parse_of_more framed pieces⟩

theorem parse_error_cases {reason : Rejection} (failed : parse text = .error reason) :
    reason = .tooManyCommas text ∨ reason = .emptyRange text := by
  rcases parse_cases text with ⟨-, many⟩ | ⟨-, left, body, right, before, after, framed, halves⟩
  · rw [many] at failed
    exact .inl (Except.error.inj failed).symm
  · rw [parse_of_halves framed halves] at failed
    split at failed
    · exact .inr (Except.error.inj failed).symm
    · cases failed

structure Settled (b : Bounds) : Prop where
  bounded : b.isEmpty = false
  minimum : IsBound b.minimum
  maximum : IsBound b.maximum
  besideMinimum : b.exclusiveMinimum.isSome = b.minimum.isSome
  besideMaximum : b.exclusiveMaximum.isSome = b.maximum.isSome

theorem settled_of_parse {b : Bounds} (read : parse text = .ok b) : b.Settled := by
  rcases parse_cases text with ⟨-, failed⟩ | ⟨-, left, body, right, before, after, framed, halves⟩
  · rw [read] at failed
    cases failed
  · rw [parse_of_halves framed halves] at read
    split at read
    · cases read
    · next bounded =>
      cases read
      have plain : ',' ∉ before ∧ ',' ∉ after := by
        cases halves with
        | whole plain => exact ⟨plain, List.not_mem_nil⟩
        | parted plain plain' => exact ⟨plain, plain'⟩
      exact ⟨by simpa using bounded, isBound_boundText? plain.1, isBound_boundText? plain.2,
        Option.isSome_map, Option.isSome_map⟩

theorem map_excluded {bound? : Option String} {excluded? : Option Bool}
    (beside : excluded?.isSome = bound?.isSome) :
    bound?.map (fun _ => decide (excluded? = some true)) = excluded? := by
  cases bound? with
  | none =>
    cases excluded? with
    | none => rfl
    | some excluded => cases beside
  | some bound =>
    cases excluded? with
    | none => cases beside
    | some excluded => cases excluded <;> rfl

theorem Settled.parse_interval {b : Bounds} (settled : b.Settled) : parse b.interval = .ok b := by
  obtain ⟨bounded, minimum, maximum, besideMinimum, besideMaximum⟩ := settled
  let left : Char := if b.exclusiveMinimum = some true then '(' else '['
  let right : Char := if b.exclusiveMaximum = some true then ')' else ']'
  have framed : Framed b.interval.toList (some left)
      ((b.minimum.getD "").toList ++ ',' :: (b.maximum.getD "").toList) (some right) := by
    refine ⟨?_, ?_, nofun, ?_, nofun⟩
    · simp only [interval, left, right, String.toList_append]
      split <;> split <;> simp
    · rintro _ ⟨⟩
      simp only [left]
      split <;> decide
    · rintro _ ⟨⟩
      simp only [right]
      split <;> decide
  have leftExcludes : excludesLeft (some left) = decide (b.exclusiveMinimum = some true) := by
    simp only [left]
    split <;> simp_all [excludesLeft]
  have rightExcludes : excludesRight (some right) = decide (b.exclusiveMaximum = some true) := by
    simp only [right]
    split <;> simp_all [excludesRight]
  have same : ofHalves (some left) (b.minimum.getD "").toList (b.maximum.getD "").toList (some right) = b := by
    rw [ofHalves, minimum.trimmed, maximum.trimmed, leftExcludes, rightExcludes, ofPieces,
      map_excluded besideMinimum, map_excluded besideMaximum]
  rw [parse_of_halves framed (.parted minimum.plain maximum.plain), same, bounded]
  rfl

/-- A text is an interval unless it has more than one comma or blanks only on both sides of it. Its
bounds are what stands there, each excluded or not as its bracket says, and they are read again from the
interval that is written for them. -/
theorem parse_reads_interval (text : String) :
    (parse text = .error (.tooManyCommas text) ↔ 2 ≤ text.toList.count ',') ∧
      (text.toList.count ',' < 2 → ∃ left body right before after,
        Framed text.toList left body right ∧ Halves body before after) ∧
      (∀ left body right before after, Framed text.toList left body right → Halves body before after →
        (parse text = .error (.emptyRange text) ↔ IsBlank before ∧ IsBlank after) ∧
          (¬ (IsBlank before ∧ IsBlank after) → ∃ b, parse text = .ok b ∧
            b.minimum = (if IsBlank before then none else some (String.ofList (Text.trim before))) ∧
            b.maximum = (if IsBlank after then none else some (String.ofList (Text.trim after))) ∧
            b.exclusiveMinimum = b.minimum.map (fun _ => decide (left = some '(' ∨ left = some ']')) ∧
            b.exclusiveMaximum = b.maximum.map (fun _ => decide (right = some ')' ∨ right = some '[')))) ∧
      ∀ b, parse text = .ok b → parse b.interval = .ok b := by
  refine ⟨⟨fun failed => ?_, fun many => ?_⟩, fun few => ?_, ?_, ?_⟩
  · rcases parse_cases text with ⟨many, -⟩ | ⟨-, left, body, right, before, after, framed, halves⟩
    · exact many
    · rw [parse_of_halves framed halves] at failed
      split at failed
      · cases failed
      · cases failed
  · rcases parse_cases text with ⟨-, failed⟩ | ⟨few, -⟩
    · exact failed
    · omega
  · rcases parse_cases text with ⟨many, -⟩ | ⟨-, cut⟩
    · omega
    · exact cut
  · intro left body right before after framed halves
    rw [parse_of_halves framed halves, ← isEmpty_ofHalves left before after right]
    constructor
    · split
      · next blank => simp [blank]
      · next bounded => simp [bounded]
    · intro bounded
      rw [if_neg bounded]
      exact ⟨_, rfl, boundText?_eq before, boundText?_eq after, rfl, rfl⟩
  · exact fun b read => (settled_of_parse read).parse_interval

theorem parse_reads_interval_nested :
    let b : Bounds := ⟨some "(1", some true, some "[2)", some true⟩
    Framed "](1 ,\t[2)[".toList (some ']') "(1 ,\t[2)".toList (some '[') ∧
      Halves "(1 ,\t[2)".toList "(1 ".toList "\t[2)".toList ∧
      parse "](1 ,\t[2)[" = .ok b ∧ b.interval = "((1,[2))" ∧ parse "((1,[2))" = .ok b ∧
      parse "]" = .error (.emptyRange "]") ∧ parse "[1,2,3]" = .error (.tooManyCommas "[1,2,3]") := by
  intro b
  have framed : Framed "](1 ,\t[2)[".toList (some ']') "(1 ,\t[2)".toList (some '[') :=
    ⟨rfl, by simp [leftBrackets], nofun, by simp [rightBrackets], nofun⟩
  have halves : Halves "(1 ,\t[2)".toList "(1 ".toList "\t[2)".toList :=
    Halves.parted (by decide : ',' ∉ "(1 ".toList) (by decide : ',' ∉ "\t[2)".toList)
  have bare : Framed "]".toList (some ']') [] none := ⟨rfl, by simp [leftBrackets], nofun, nofun, fun _ => nofun⟩
  obtain ⟨-, -, reads, back⟩ := parse_reads_interval "](1 ,\t[2)["
  obtain ⟨b', read, minimum, maximum, besideMinimum, besideMaximum⟩ :=
    (reads _ _ _ _ _ framed halves).2 (by decide)
  have minimum' : b'.minimum = some "(1" := minimum.trans (by decide +kernel)
  have maximum' : b'.maximum = some "[2)" := maximum.trans (by decide +kernel)
  have same : b' = b := by
    rw [minimum'] at besideMinimum
    rw [maximum'] at besideMaximum
    obtain ⟨_, _, _, _⟩ := b'
    cases minimum'
    cases maximum'
    cases besideMinimum
    cases besideMaximum
    rfl
  subst same
  refine ⟨framed, halves, read, by decide +kernel, ?_, ?_, ?_⟩
  · exact back _ read
  · exact ((parse_reads_interval "]").2.2.1 _ _ _ _ _ bare (.whole (by decide))).1.mpr (by decide)
  · exact (parse_reads_interval "[1,2,3]").1.mpr (by decide)

end Bounds

end IdlDirectives
