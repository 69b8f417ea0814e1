import IdlDirectives.Proofs.Expression.Reading

namespace IdlDirectives.Expression

namespace Reader

def Selects (r : Reader) (path : List String) : Prop :=
  r.endName.selection.Contains path

structure Fresh (r : Reader) : Prop where
  consistent : r.Consistent
  segment : r.phase = .segment

theorem Fresh.name_eq {r : Reader} (fresh : r.Fresh) : r.name = "" :=
  fresh.consistent.named.mpr (by simp [fresh.segment])

theorem Fresh.selects {r : Reader} (fresh : r.Fresh) {path : List String} :
    r.Selects path ↔ r.selection.Contains path := by
  rw [Selects, contains_endName fresh.consistent, fresh.name_eq]
  simp

theorem run_chars {r : Reader} {position : Nat} {cs : List Char} (phase : r.phase = .name)
    (plain : ∀ c ∈ cs, c ∉ delimiters) :
    r.run position cs = .ok { r with name := r.name ++ String.ofList cs } := by
  induction cs generalizing r position with
  | nil => simp [run]
  | cons c cs ih =>
    refine run_cons.mpr ⟨_, .plain (plain c List.mem_cons_self) (by simp [phase]), ?_⟩
    rw [ih rfl (fun d member => plain d (List.mem_cons_of_mem _ member))]
    have joined : r.name.push c ++ String.ofList cs = r.name ++ String.ofList (c :: cs) := by
      apply String.toList_inj.mp
      simp
    simp only [joined, phase]

theorem run_name {r : Reader} {position : Nat} (n : Name) (fresh : r.Fresh) :
    r.run position n.chars = .ok { r with name := n.text, phase := .name } := by
  obtain ⟨chars, nonempty, plain⟩ := n
  cases chars with
  | nil => exact absurd rfl nonempty
  | cons c cs =>
    refine run_cons.mpr ⟨_, .plain (plain c List.mem_cons_self) (by simp [fresh.segment]), ?_⟩
    rw [run_chars rfl (fun d member => plain d (List.mem_cons_of_mem _ member))]
    have joined : r.name.push c ++ String.ofList cs = String.ofList (c :: cs) := by
      apply String.toList_inj.mp
      simp [fresh.name_eq]
    simp only [joined, Name.text]

theorem run_name_dot {r : Reader} (position : Nat) (n : Name) (fresh : r.Fresh) :
    ∃ after, r.run position (n.chars ++ ['.']) = .ok after ∧ after.Fresh ∧
      after.current = r.current ++ [n.text] ∧ after.opened = r.opened ∧
      ∀ path, after.selection.Contains path ↔
        r.selection.Contains path ∨ path = r.current ++ [n.text] := by
  let named : Reader := { r with name := n.text, phase := .name }
  have ran : r.run position n.chars = .ok named := run_name n fresh
  have consistent : named.Consistent := fresh.consistent.of_run ran
  have moves : named.Moves '.'
      { named.endName with current := named.current ++ [named.name], phase := .segment } :=
    .dot n.text_ne_empty
  refine ⟨_, run_append.mpr ⟨named, ran, run_cons.mpr ⟨_, moves, rfl⟩⟩,
    ⟨consistent.of_moves moves, rfl⟩, rfl, by simp [named], ?_⟩
  intro path
  rw [contains_endName consistent]
  simp [named, n.text_ne_empty]

mutual

theorem run_items {r : Reader} (position : Nat) (fresh : r.Fresh) (atBase : r.current = r.base) :
    ∀ items : Items, ∃ after, r.run position items.text = .ok after ∧ after.opened = r.opened ∧
      ∀ path, after.Selects path ↔ r.selection.Contains path ∨ items.Denotes r.current path
  | .one item => by simpa only [Items.text, Items.Denotes] using run_item position fresh item
  | .more item others => by
    obtain ⟨middle, ran, opened, selects⟩ := run_item position fresh item
    have consistent := fresh.consistent.of_run ran
    have moves : middle.Moves ',' { middle.endName with current := middle.base, phase := .segment } :=
      .comma
    have again : Fresh { middle.endName with current := middle.base, phase := .segment } :=
      ⟨consistent.of_moves moves, rfl⟩
    have returned : middle.base = r.current := by rw [atBase, base, base, opened]
    obtain ⟨after, rest, opened', selects'⟩ :=
      run_items (position + item.text.length + 1) again (by simp [base]) others
    refine ⟨after, run_append.mpr ⟨middle, ran, run_cons.mpr ⟨_, moves, rest⟩⟩,
      by rw [opened']; simp [opened], ?_⟩
    intro path
    rw [selects', Items.Denotes, ← or_assoc, ← selects]
    simp only [returned, Selects]

theorem run_item {r : Reader} (position : Nat) (fresh : r.Fresh) :
    ∀ item : Item, ∃ after, r.run position item.text = .ok after ∧ after.opened = r.opened ∧
      ∀ path, after.Selects path ↔ r.selection.Contains path ∨ item.Denotes r.current path
  | .mk [] tail => by
    simpa only [Item.text, List.flatMap_nil, List.nil_append, Item.denotes_nil] using
      run_tail position fresh tail
  | .mk (n :: names) tail => by
    obtain ⟨middle, ran, again, current, opened, contains⟩ :=
      run_name_dot position n fresh
    obtain ⟨after, rest, opened', selects⟩ := run_item (position + (n.chars ++ ['.']).length)
      again (.mk names tail)
    refine ⟨after, ?_, opened'.trans opened, ?_⟩
    · rw [Item.text_cons, List.append_cons]
      exact run_append.mpr ⟨middle, ran, rest⟩
    · intro path
      rw [selects, contains, current, Item.denotes_cons, or_assoc]

theorem run_tail {r : Reader} (position : Nat) (fresh : r.Fresh) :
    ∀ tail : Tail, ∃ after, r.run position tail.text = .ok after ∧ after.opened = r.opened ∧
      ∀ path, after.Selects path ↔ r.selection.Contains path ∨ tail.Denotes r.current path
  | .empty => ⟨r, rfl, rfl, fun path => by simp [fresh.selects, Tail.Denotes]⟩
  | .name n => by
    have ran : r.run position n.chars = .ok { r with name := n.text, phase := .name } := run_name n fresh
    refine ⟨_, ran, rfl, ?_⟩
    intro path
    rw [Selects, contains_endName (fresh.consistent.of_run ran)]
    simp [Tail.Denotes, n.text_ne_empty]
  | .group items => by
    have moves : r.Moves '(' { r with opened := r.current :: r.opened } := .opening fresh.segment
    have inside : Fresh { r with opened := r.current :: r.opened } :=
      ⟨fresh.consistent.of_moves moves, fresh.segment⟩
    obtain ⟨middle, ran, opened, selects⟩ :=
      run_items (position + 1) inside (by simp [base]) items
    let after : Reader :=
      { middle.endName with current := r.current, opened := r.opened, phase := .closed }
    have closes : middle.Moves ')' after := .closing opened
    refine ⟨after, ?_, rfl, ?_⟩
    · exact run_cons.mpr ⟨_, moves, run_append.mpr ⟨middle, ran, run_cons.mpr ⟨_, closes, rfl⟩⟩⟩
    · intro path
      have consistent := (inside.consistent.of_run ran).of_moves closes
      rw [Selects, contains_endName consistent, Tail.Denotes, ← selects, Selects]
      simp [after]

end

end Reader

inductive Ending : Nat → List Char → Prop where
  | done : Ending 0 []
  | next {depth : Nat} {rest : List Char} (item : Item) (ending : Ending depth rest) :
    Ending depth (',' :: item.text ++ rest)
  | close {depth : Nat} {rest : List Char} (ending : Ending depth rest) :
    Ending (depth + 1) (')' :: rest)

theorem Ending.items {rest : List Char} (ending : Ending 0 rest) (item : Item) :
    ∃ items : Items, items.text = item.text ++ rest := by
  generalize zero : 0 = depth at ending
  induction ending generalizing item with
  | done => exact ⟨.one item, by simp [Items.text]⟩
  | next other ending ih =>
    obtain ⟨others, same⟩ := ih other zero
    exact ⟨.more item others, by simp [Items.text, same]⟩
  | close ending _ => simp at zero

theorem Ending.group {depth : Nat} {rest : List Char} (ending : Ending (depth + 1) rest) (item : Item) :
    ∃ (items : Items) (after : List Char),
      item.text ++ rest = items.text ++ ')' :: after ∧ Ending depth after := by
  generalize inside : depth + 1 = deeper at ending
  induction ending generalizing item with
  | done => simp at inside
  | next other ending ih =>
    obtain ⟨others, after, same, outside⟩ := ih other inside
    exact ⟨.more item others, after, by simp [Items.text, same], outside⟩
  | @close _ after ending _ =>
    obtain rfl := Nat.succ.inj inside
    exact ⟨.one item, after, by simp [Items.text], ending⟩

/-- What the rest of a text has to be for a reader inside `depth` open groups to accept it. -/
def Demands (depth : Nat) : Phase → List Char → Prop
  | .segment, cs => ∃ (item : Item) (rest : List Char), cs = item.text ++ rest ∧ Ending depth rest
  | .name, cs =>
    ∃ chars : List Char, (∀ c ∈ chars, c ∉ delimiters) ∧
      ((∃ rest, cs = chars ++ rest ∧ Ending depth rest) ∨
        ∃ (item : Item) (rest : List Char), cs = chars ++ '.' :: (item.text ++ rest) ∧ Ending depth rest)
  | .closed, cs => Ending depth cs

theorem Demands.of_ending {depth : Nat} {cs : List Char} (ending : Ending depth cs) :
    ∀ phase, Demands depth phase cs
  | .segment => ⟨.mk [] .empty, cs, by simp [Item.text, Tail.text], ending⟩
  | .name => ⟨[], by simp, .inl ⟨cs, rfl, ending⟩⟩
  | .closed => ending

theorem Demands.plain {depth : Nat} {phase : Phase} {c : Char} {cs : List Char}
    (plain : c ∉ delimiters) (unclosed : phase ≠ .closed) (h : Demands depth .name cs) :
    Demands depth phase (c :: cs) := by
  obtain ⟨chars, plainChars, follows⟩ := h
  have allPlain : ∀ d ∈ c :: chars, d ∉ delimiters := by
    intro d member
    rcases List.mem_cons.mp member with rfl | member
    · exact plain
    · exact plainChars d member
  cases phase with
  | closed => exact absurd rfl unclosed
  | name =>
    refine ⟨c :: chars, allPlain, ?_⟩
    rcases follows with ⟨rest, rfl, ending⟩ | ⟨item, rest, rfl, ending⟩
    · exact .inl ⟨rest, rfl, ending⟩
    · exact .inr ⟨item, rest, rfl, ending⟩
  | segment =>
    let n : Name := ⟨c :: chars, by simp, allPlain⟩
    rcases follows with ⟨rest, rfl, ending⟩ | ⟨⟨names, tail⟩, rest, rfl, ending⟩
    · exact ⟨.mk [] (.name n), rest, by simp [Item.text, Tail.text, n], ending⟩
    · exact ⟨.mk (n :: names) tail, rest, by simp [Item.text_cons, n], ending⟩

theorem demands_of_run {r final : Reader} {position : Nat} {cs : List Char} (h : r.Consistent)
    (ran : r.run position cs = .ok final) (finished : final.opened = []) :
    Demands r.opened.length r.phase cs := by
  -- what each character leaves to be demanded is what the reader after it demands
  induction cs generalizing r position with
  | nil =>
    cases ran
    rw [finished]
    exact .of_ending .done _
  | cons c cs ih =>
    obtain ⟨next, moves, ran⟩ := Reader.run_cons.mp ran
    have demanded := ih (h.of_moves moves) ran
    cases moves with
    | dot named =>
      have phase : r.phase = .name := by
        have := mt h.named.mpr named
        simpa using this
      obtain ⟨item, rest, rfl, ending⟩ := demanded
      rw [phase]
      exact ⟨[], by simp, .inr ⟨item, rest, rfl, by simpa using ending⟩⟩
    | opening segment =>
      simp only [segment] at demanded ⊢
      obtain ⟨item, rest, rfl, ending⟩ := demanded
      obtain ⟨items, after, same, outside⟩ := ending.group item
      exact ⟨.mk [] (.group items), after, by simp [Item.text, Tail.text, same], outside⟩
    | closing opened =>
      rw [opened]
      exact .of_ending (.close demanded) _
    | comma =>
      obtain ⟨item, rest, rfl, ending⟩ := demanded
      exact .of_ending (.next item (by simpa using ending)) _
    | plain plain unclosed => exact .plain plain unclosed demanded

theorem parse_eq_ok {expression : String} {s : Selection} :
    parse expression = .ok s ↔
      ∃ r : Reader, Reader.start.run 0 expression.toList = .ok r ∧ r.opened = [] ∧
        r.endName.selection = s := by
  have finished (r : Reader) : r.finish = .ok s ↔ r.opened = [] ∧ r.endName.selection = s := by
    simp only [Reader.finish, List.isEmpty_iff]
    split
    · next empty => simp [empty]
    · next open' => simp [open']
  rw [parse, bind_eq_ok]
  simp only [finished]

theorem parse_text (items : Items) :
    ∃ s, parse (String.ofList items.text) = .ok s ∧
      ∀ path, s.Contains path ↔ path = [] ∨ items.Denotes [] path := by
  have fresh : Reader.start.Fresh := ⟨Reader.start_consistent, rfl⟩
  obtain ⟨after, ran, opened, selects⟩ := Reader.run_items 0 fresh rfl items
  refine ⟨_, parse_eq_ok.mpr ⟨after, by rw [String.toList_ofList]; exact ran, opened, rfl⟩, ?_⟩
  intro path
  have selected := selects path
  simp only [Reader.start, Selection.contains_whole] at selected
  exact selected

/-- An expression can be read exactly if it is in the language, and the nodes below the root of the
selection are the ones that its syntax tree denotes. -/
theorem parse_denotes (expression : String) :
    ((∃ s, parse expression = .ok s) ↔ ∃ items : Items, items.text = expression.toList) ∧
      ∀ s, parse expression = .ok s → ∀ items : Items, items.text = expression.toList →
        ∀ path, path ≠ [] ∧ s.Contains path ↔ items.Denotes [] path := by
  have fresh : Reader.start.Fresh := ⟨Reader.start_consistent, rfl⟩
  refine ⟨⟨?_, ?_⟩, ?_⟩
  · intro accepted
    obtain ⟨s, parsed⟩ := accepted
    obtain ⟨r, ran, closed, -⟩ := parse_eq_ok.mp parsed
    obtain ⟨item, rest, same, ending⟩ := demands_of_run fresh.consistent ran closed
    obtain ⟨items, text⟩ := Ending.items ending item
    exact ⟨items, text.trans same.symm⟩
  · intro derivable
    obtain ⟨items, text⟩ := derivable
    obtain ⟨after, ran, opened, -⟩ := Reader.run_items 0 fresh rfl items
    exact ⟨_, parse_eq_ok.mpr ⟨after, text ▸ ran, opened, rfl⟩⟩
  · intro s parsed items text path
    obtain ⟨after, ran, opened, selects⟩ := Reader.run_items 0 fresh rfl items
    obtain ⟨r, ran', -, rfl⟩ := parse_eq_ok.mp parsed
    rw [text, ran'] at ran
    cases ran
    have selected := selects path
    simp only [Reader.Selects, Reader.start, Selection.contains_whole] at selected
    rw [selected]
    constructor
    · intro node
      rcases node with ⟨below, root | denoted⟩
      · exact absurd root below
      · exact denoted
    · intro denoted
      exact ⟨denoted.ne_root, .inr denoted⟩

theorem parse_denotes_group :
    ∃ (s : Selection) (items : Items), parse "a.(b,c.)" = .ok s ∧
      items.text = "a.(b,c.)".toList ∧ items.Denotes [] ["a", "c"] ∧
        (["a", "c"] ≠ [] ∧ s.Contains ["a", "c"]) := by
  let name (c : Char) (plain : c ∉ delimiters) : Name := ⟨[c], by simp, by simpa using plain⟩
  let items : Items := .one (.mk [name 'a' (by decide)]
    (.group (.more (.mk [] (.name (name 'b' (by decide)))) (.one (.mk [name 'c' (by decide)] .empty)))))
  have text : items.text = "a.(b,c.)".toList := by decide
  have denoted : items.Denotes [] ["a", "c"] :=
    .inr (.inr (.inl ⟨1, by decide, by decide, by decide⟩))
  obtain ⟨s, parsed⟩ := (parse_denotes "a.(b,c.)").1.mpr ⟨items, text⟩
  exact ⟨s, items, parsed, text, denoted,
    ((parse_denotes "a.(b,c.)").2 s parsed items text ["a", "c"]).mpr denoted⟩

end IdlDirectives.Expression
