import IdlDirectives.Proofs.Expression.Errors

namespace IdlDirectives.Expression

namespace Reader

variable {r next : Reader} {c : Char}

theorem selection_of_moves (moves : r.Moves c next) :
    next.selection = r.selection ∨ next.selection = r.endName.selection := by
  cases moves with
  | dot => exact .inr rfl
  | opening => exact .inl rfl
  | closing => exact .inr rfl
  | comma => exact .inr rfl
  | plain => exact .inl rfl

theorem Consistent.contains_of_moves (h : r.Consistent) (moves : r.Moves c next) (path : List String) :
    (r.selection.Contains path → next.selection.Contains path) ∧
      (next.selection.Contains path →
        r.selection.Contains path ∨ (r.name ≠ "" ∧ path = r.current ++ [r.name])) := by
  rcases selection_of_moves moves with same | ended
  · rw [same]
    exact ⟨id, .inl⟩
  · rw [ended, contains_endName h]
    exact ⟨.inl, id⟩

theorem Consistent.segment (h : r.Consistent) (moves : r.Moves '(' next) :
    r.name = "" ∧ ∀ c, c ∉ delimiters → ∃ named, r.Moves c named := by
  have segment : r.phase = .segment := by
    cases moves with
    | opening segment => exact segment
    | plain plain => exact absurd (by decide) plain
  refine ⟨h.named.mpr (by rw [segment]; decide), ?_⟩
  intro c plain
  exact ⟨_, .plain plain (by rw [segment]; decide)⟩

theorem Consistent.closed_of_moves (h : r.Consistent) (closed : r.phase = .closed) (moves : r.Moves c next)
    (inItem : c ≠ ',') : next.phase = .closed := by
  cases moves with
  | dot named => exact absurd (h.named.mpr (by rw [closed]; decide)) named
  | opening segment =>
    rw [closed] at segment
    cases segment
  | closing => rfl
  | comma => exact absurd rfl inItem
  | plain _ unclosed => exact absurd closed unclosed

/-- Behind a group nothing but the ends of others can follow before the next comma. -/
theorem Consistent.closed_of_run {after : Reader} {position : Nat} {cs : List Char} (h : r.Consistent)
    (closed : r.phase = .closed) (ran : r.run position cs = .ok after) (inItem : ',' ∉ cs) :
    after.phase = .closed := by
  induction cs generalizing r position with
  | nil =>
    cases ran
    exact closed
  | cons c cs ih =>
    obtain ⟨next, moves, ran⟩ := run_cons.mp ran
    rw [List.mem_cons, not_or] at inItem
    exact ih (h.of_moves moves) (h.closed_of_moves closed moves (Ne.symm inItem.1)) ran inItem.2

theorem name_behind_group {earlier later : List Char}
    (ran : start.run 0 (earlier ++ ')' :: later) = .ok r) (inItem : ',' ∉ later) : r.name = "" := by
  obtain ⟨middle, ran, rest⟩ := run_append.mp ran
  obtain ⟨next, moves, rest⟩ := run_cons.mp rest
  have consistent : next.Consistent := (start_consistent.of_run ran).of_moves moves
  have closed : next.phase = .closed := by
    cases moves with
    | closing => rfl
    | plain plain => exact absurd (by decide) plain
  have still : r.phase = .closed := consistent.closed_of_run closed rest inItem
  exact (consistent.of_run rest).named.mpr (by rw [still]; decide)

/-- Names are made of these characters only, the selected ones and the one that goes on. -/
structure MadeOf (r : Reader) (chars : List Char) : Prop where
  nodes : ∀ path, r.selection.Contains path → ∀ selector ∈ path, selector.toList ⊆ chars
  name : r.name.toList ⊆ chars

theorem start_madeOf (chars : List Char) : start.MadeOf chars where
  nodes := by simp [start, Selection.contains_whole]
  name := List.nil_subset chars

theorem name_of_moves (moves : r.Moves c next) :
    next.name = "" ∨ next.name = r.name ∨ next.name = r.name.push c := by
  cases moves with
  | dot => exact .inl r.endName_name
  | opening => exact .inr (.inl rfl)
  | closing => exact .inl r.endName_name
  | comma => exact .inl r.endName_name
  | plain => exact .inr (.inr rfl)

variable {chars : List Char}

theorem MadeOf.added (made : r.MadeOf chars) (h : r.Consistent) {path : List String}
    (there : r.selection.Contains path ∨ (r.name ≠ "" ∧ path = r.current ++ [r.name])) :
    ∀ selector ∈ path, selector.toList ⊆ chars := by
  intro selector member
  rcases there with there | ⟨-, rfl⟩
  · exact made.nodes path there selector member
  · rcases List.mem_append.mp member with above | own
    · exact made.nodes r.current (h.there r.current List.mem_cons_self) selector above
    · rw [List.mem_singleton.mp own]
      exact made.name

theorem MadeOf.of_moves (made : r.MadeOf chars) (h : r.Consistent) (moves : r.Moves c next)
    (own : c ∈ chars) : next.MadeOf chars where
  nodes path there := made.added h ((h.contains_of_moves moves path).2 there)
  name := by
    rcases name_of_moves moves with ended | kept | longer
    · rw [ended]
      exact List.nil_subset chars
    · rw [kept]
      exact made.name
    · rw [longer, String.toList_push]
      exact List.append_subset.mpr ⟨made.name, List.cons_subset.mpr ⟨own, List.nil_subset chars⟩⟩

theorem MadeOf.of_run {after : Reader} {position : Nat} {cs : List Char} (made : r.MadeOf chars)
    (h : r.Consistent) (ran : r.run position cs = .ok after) (own : cs ⊆ chars) : after.MadeOf chars := by
  induction cs generalizing r position with
  | nil =>
    cases ran
    exact made
  | cons c cs ih =>
    obtain ⟨next, moves, ran⟩ := run_cons.mp ran
    obtain ⟨first, rest⟩ := List.cons_subset.mp own
    exact ih (made.of_moves h moves first) (h.of_moves moves) ran rest

end Reader

theorem selectors_subset {expression : String} {s : Selection} (parsed : parse expression = .ok s)
    {path : List String} (there : s.Contains path) :
    ∀ selector ∈ path, selector.toList ⊆ expression.toList := by
  obtain ⟨r, ran, -, rfl⟩ := parse_eq_ok.mp parsed
  have consistent : r.Consistent := Reader.start_consistent.of_run ran
  have made : r.MadeOf expression.toList :=
    (Reader.start_madeOf _).of_run Reader.start_consistent ran (List.Subset.refl _)
  exact made.added consistent ((Reader.contains_endName consistent).mp there)

/-- What holds between any two characters of an expression. The open groups are as many as parentheses are
open. Their nodes lie each on the way to the next and the last on the way to the current node, and all of
them have been selected. A group may begin only where a name may begin and none has, and no name begins
behind a group before the next comma. Ending a name adds at most one node, below the current one, and a
step adds no other and takes none away. -/
theorem reader_along_expression {expression : String} {read rest : List Char} {r : Reader}
    (cut : expression.toList = read ++ rest) (ran : Reader.start.run 0 read = .ok r) :
    parse expression = (r.run read.length rest).bind (·.finish) ∧
      (r.opened.reverse ++ [r.current]).Pairwise (fun outer inner => outer <+: inner) ∧
      (∀ node ∈ r.opened.reverse ++ [r.current], r.selection.Contains node) ∧
      read.count ')' ≤ read.count '(' ∧ r.opened.length = read.count '(' - read.count ')' ∧
      (∀ position next, r.step position '(' = .ok next →
        r.name = "" ∧ ∀ c, c ∉ delimiters → ∃ named, r.step position c = .ok named) ∧
      (∀ earlier later, read = earlier ++ ')' :: later → ',' ∉ later → r.name = "") ∧
      (∀ path, r.endName.selection.Contains path ↔
        r.selection.Contains path ∨ (r.name ≠ "" ∧ path = r.current ++ [r.name])) ∧
      ∀ position c next, r.step position c = .ok next → ∀ path,
        (r.selection.Contains path → next.selection.Contains path) ∧
          (next.selection.Contains path →
            r.selection.Contains path ∨ (r.name ≠ "" ∧ path = r.current ++ [r.name])) := by
  have consistent : r.Consistent := Reader.start_consistent.of_run ran
  have nodes : r.opened.reverse ++ [r.current] = (r.current :: r.opened).reverse := List.reverse_cons.symm
  have groups : r.opened.length + read.count ')' = 0 + read.count '(' := Reader.opened_length_run ran
  refine ⟨?_, ?_, ?_, by omega, by omega, ?_, ?_, fun path => Reader.contains_endName consistent, ?_⟩
  · have onward := Reader.run_append_of_ok ran rest
    rw [Nat.zero_add] at onward
    rw [parse, cut, onward]
    rfl
  · rw [nodes, List.pairwise_reverse]
    exact consistent.chain
  · intro node member
    rw [nodes, List.mem_reverse] at member
    exact consistent.there node member
  · intro position next stepped
    obtain ⟨unnamed, names⟩ := consistent.segment (Reader.step_eq_ok.mp stepped)
    refine ⟨unnamed, fun c plain => ?_⟩
    obtain ⟨named, moves⟩ := names c plain
    exact ⟨named, Reader.step_eq_ok.mpr moves⟩
  · intro earlier later same inItem
    rw [same] at ran
    exact Reader.name_behind_group ran inItem
  · intro position c next stepped path
    exact consistent.contains_of_moves (Reader.step_eq_ok.mp stepped) path

theorem reader_along_groups :
    "a.(b.(c),d)".toList = "a.(b.(c)".toList ++ ",d)".toList ∧
      ∃ r, Reader.start.run 0 "a.(b.(c)".toList = .ok r ∧
        r.opened.reverse ++ [r.current] = [["a"], ["a", "b"]] ∧
        (r.opened.reverse ++ [r.current]).Pairwise (fun outer inner => outer <+: inner) ∧
        (∀ node ∈ r.opened.reverse ++ [r.current], r.selection.Contains node) ∧
        r.opened.length = "a.(b.(c)".toList.count '(' - "a.(b.(c)".toList.count ')' ∧ r.name = "" := by
  have cut : "a.(b.(c),d)".toList = "a.(b.(c)".toList ++ ",d)".toList := by decide
  have ran : ∃ r, Reader.start.run 0 "a.(b.(c)".toList = .ok r ∧
      r.opened.reverse ++ [r.current] = [["a"], ["a", "b"]] := ⟨_, rfl, rfl⟩
  obtain ⟨r, ran, pointers⟩ := ran
  obtain ⟨-, chain, there, -, height, -, behind, -⟩ := reader_along_expression cut ran
  exact ⟨cut, r, ran, pointers, chain, there, height, behind "a.(b.(c".toList [] (by decide) (by decide)⟩

end IdlDirectives.Expression
