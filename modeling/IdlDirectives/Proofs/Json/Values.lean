import IdlDirectives.Proofs.Json.Numbers
import IdlDirectives.Proofs.Json.Strings

namespace IdlDirectives.Json

/-- A value that is made of what can be held exactly: its integers have 64 bits at most, and there are no
other numbers. -/
inductive Plain : Json → Prop
  | null : Plain .null
  | bool (value : Bool) : Plain (.bool value)
  | integer {n : Int} (fits : n.natAbs < UInt64.size) : Plain (.integer n)
  | text (value : String) : Plain (.text value)
  | array {items : List Json} (each : ∀ item ∈ items, Plain item) : Plain (.array items)
  | object {members : List (String × Json)} (each : ∀ member ∈ members, Plain member.2) :
    Plain (.object members)

mutual

def heldTo : Nat → Json → Json
  | 0, .array _ => .unreadable
  | 0, .object _ => .unreadable
  | limit + 1, .array items => .array (itemsHeldTo limit items)
  | limit + 1, .object members => .object (membersHeldTo limit members)
  | _, v => v

def itemsHeldTo (limit : Nat) : List Json → List Json
  | [] => []
  | item :: rest => item.heldTo limit :: itemsHeldTo limit rest

def membersHeldTo (limit : Nat) : List (String × Json) → List (String × Json)
  | [] => []
  | (name, value) :: rest => (name, value.heldTo limit) :: membersHeldTo limit rest

end

theorem itemsHeldTo_eq (limit : Nat) (items : List Json) :
    itemsHeldTo limit items = items.map (·.heldTo limit) := by
  induction items with
  | nil => rfl
  | cons item rest ih => rw [itemsHeldTo, ih, List.map_cons]

theorem membersHeldTo_eq (limit : Nat) (members : List (String × Json)) :
    membersHeldTo limit members = members.map (fun member => (member.1, member.2.heldTo limit)) := by
  induction members with
  | nil => rfl
  | cons member rest ih => rw [membersHeldTo, ih, List.map_cons]

theorem depthOfItems_le {items : List Json} {limit : Nat} :
    depthOfItems items ≤ limit ↔ ∀ item ∈ items, item.depth ≤ limit := by
  induction items with
  | nil => simp [depthOfItems]
  | cons item rest ih => rw [depthOfItems, Nat.max_le, ih, List.forall_mem_cons]

theorem depthOfMembers_le {members : List (String × Json)} {limit : Nat} :
    depthOfMembers members ≤ limit ↔ ∀ member ∈ members, member.2.depth ≤ limit := by
  induction members with
  | nil => simp [depthOfMembers]
  | cons member rest ih => rw [depthOfMembers, Nat.max_le, ih, List.forall_mem_cons]

@[simp]
theorem heldTo_null (limit : Nat) : heldTo limit .null = .null := by
  cases limit <;> rfl

@[simp]
theorem heldTo_bool (limit : Nat) (value : Bool) : heldTo limit (.bool value) = .bool value := by
  cases limit <;> rfl

@[simp]
theorem heldTo_integer (limit : Nat) (n : Int) : heldTo limit (.integer n) = .integer n := by
  cases limit <;> rfl

@[simp]
theorem heldTo_text (limit : Nat) (value : String) : heldTo limit (.text value) = .text value := by
  cases limit <;> rfl

theorem areReadable_eq_all (items : List Json) : areReadable items = items.all isReadable := by
  induction items with
  | nil => rfl
  | cons item rest ih => rw [areReadable, ih, List.all_cons]

theorem haveReadable_eq_all (members : List (String × Json)) :
    haveReadable members = members.all (·.2.isReadable) := by
  induction members with
  | nil => rfl
  | cons member rest ih => rw [haveReadable, ih, List.all_cons]

theorem Plain.isReadable_heldTo {v : Json} (plain : v.Plain) {limit : Nat} :
    (v.heldTo limit).isReadable = true ↔ v.depth ≤ limit := by
  induction plain generalizing limit with
  | null => simp [isReadable, depth]
  | bool value => simp [isReadable, depth]
  | integer fits => simp [isReadable, depth]
  | text value => simp [isReadable, depth]
  | @array items each ih =>
    cases limit with
    | zero => simp [heldTo, isReadable, depth]
    | succ limit =>
      rw [heldTo, itemsHeldTo_eq, isReadable, areReadable_eq_all, depth, Nat.add_le_add_iff_right,
        depthOfItems_le]
      simp only [List.all_map, List.all_eq_true, Function.comp_apply]
      exact forall₂_congr (fun item member => ih item member)
  | @object members each ih =>
    cases limit with
    | zero => simp [heldTo, isReadable, depth]
    | succ limit =>
      rw [heldTo, membersHeldTo_eq, isReadable, haveReadable_eq_all, depth, Nat.add_le_add_iff_right,
        depthOfMembers_le]
      simp only [List.all_map, List.all_eq_true, Function.comp_apply]
      exact forall₂_congr (fun member there => ih member there)

theorem held_array (limit depth : Nat) (items : List Json) :
    held limit depth (some (.array (items.map (·.heldTo (limit - (depth + 1)))))) =
      (Json.array items).heldTo (limit - depth) := by
  by_cases within : depth < limit
  · have next : limit - depth = limit - (depth + 1) + 1 := by omega
    rw [held, if_pos within, next, heldTo, itemsHeldTo_eq, Option.getD_some]
  · have none : limit - depth = 0 := by omega
    rw [held, if_neg within, none, heldTo]

theorem held_object (limit depth : Nat) (members : List (String × Json)) :
    held limit depth (some (.object
        (members.map (fun member => (member.1, member.2.heldTo (limit - (depth + 1))))))) =
      (Json.object members).heldTo (limit - depth) := by
  by_cases within : depth < limit
  · have next : limit - depth = limit - (depth + 1) + 1 := by omega
    rw [held, if_pos within, next, heldTo, membersHeldTo_eq, Option.getD_some]
  · have none : limit - depth = 0 := by omega
    rw [held, if_neg within, none, heldTo]

structure Layout.Blank (layout : Layout) : Prop where
  lineBreak : ∀ depth, ∀ c ∈ layout.lineBreak depth, isSpace c = true
  colon : ∃ after, layout.colon = ':' :: after ∧ ∀ c ∈ after, isSpace c = true

theorem Layout.compact_blank : Layout.compact.Blank where
  lineBreak := by simp [compact]
  colon := ⟨[], rfl, by simp⟩

theorem Layout.pretty_blank : Layout.pretty.Blank where
  lineBreak := by simp [pretty, isSpace]
  colon := ⟨[' '], rfl, by simp [isSpace]⟩

section Blanks

variable {spaces : List Char} (blank : ∀ c ∈ spaces, isSpace c = true)

include blank

theorem skipSpace_append (cs : List Char) : skipSpace (spaces ++ cs) = skipSpace cs :=
  List.dropWhile_append_of_pos blank

theorem readValue_append (limit fuel depth : Nat) (cs : List Char) :
    readValue limit fuel depth (spaces ++ cs) = readValue limit fuel depth cs := by
  cases fuel with
  | zero => rfl
  | succ fuel => simp only [readValue, skipSpace_append blank]

theorem readItems_append (limit fuel depth : Nat) (cs : List Char) :
    readItems limit fuel depth (spaces ++ cs) = readItems limit fuel depth cs := by
  cases fuel with
  | zero => rfl
  | succ fuel => simp only [readItems, readValue_append blank]

theorem readMembers_append (limit fuel depth : Nat) (cs : List Char) :
    readMembers limit fuel depth (spaces ++ cs) = readMembers limit fuel depth cs := by
  cases fuel with
  | zero => rfl
  | succ fuel => simp only [readMembers, skipSpace_append blank]

theorem EndsNumber.append {cs : List Char} (ends : EndsNumber cs) : EndsNumber (spaces ++ cs) := by
  cases spaces with
  | nil => exact ends
  | cons space rest =>
    have first : isSpace space = true := blank space List.mem_cons_self
    intro c here
    obtain rfl : space = c := Option.some.inj here
    simp only [isSpace, Bool.or_eq_true, beq_iff_eq] at first
    rcases first with ((rfl | rfl) | rfl) | rfl <;> decide

end Blanks

theorem skipSpace_cons {c : Char} (solid : isSpace c = false) (cs : List Char) :
    skipSpace (c :: cs) = c :: cs := by
  simp [skipSpace, solid]

theorem ne_of_startsNumber {c other : Char} (number : c.isDigit = true ∨ c = '-')
    (stranger : other.isDigit = false ∧ other ≠ '-') : c ≠ other := by
  rintro rfl
  rcases number with digit | minus
  · rw [stranger.1] at digit
    cases digit
  · exact stranger.2 minus

theorem isSpace_of_startsNumber {c : Char} (number : c.isDigit = true ∨ c = '-') : isSpace c = false := by
  simp [isSpace, ne_of_startsNumber number (by decide : Char.isDigit ' ' = false ∧ _),
    ne_of_startsNumber number (by decide : Char.isDigit '\n' = false ∧ _),
    ne_of_startsNumber number (by decide : Char.isDigit '\t' = false ∧ _),
    ne_of_startsNumber number (by decide : Char.isDigit '\r' = false ∧ _)]

theorem readValue_number {c : Char} (number : c.isDigit = true ∨ c = '-') (limit fuel depth : Nat)
    (cs : List Char) : readValue limit (fuel + 1) depth (c :: cs) = readNumber (c :: cs) := by
  have quote : c ≠ '"' := ne_of_startsNumber number (by decide)
  have bracket : c ≠ '[' := ne_of_startsNumber number (by decide)
  have brace : c ≠ '\x7b' := ne_of_startsNumber number (by decide)
  have n : c ≠ 'n' := ne_of_startsNumber number (by decide)
  have t : c ≠ 't' := ne_of_startsNumber number (by decide)
  have f : c ≠ 'f' := ne_of_startsNumber number (by decide)
  simp [readValue, skipSpace_cons (isSpace_of_startsNumber number), quote, bracket, brace, n, t, f]

theorem exists_writeInteger_cons (n : Int) :
    ∃ c cs, writeInteger n = c :: cs ∧ (c.isDigit = true ∨ c = '-') := by
  obtain ⟨d, rest, digits, digit⟩ := exists_toDigits_cons n.natAbs
  unfold writeInteger
  split
  · exact ⟨_, _, rfl, .inr rfl⟩
  · exact ⟨d, rest, digits, .inl digit⟩

theorem readValue_items {c : Char} {text : List Char} (first : (skipSpace text).head? = some c)
    (item : c ≠ ']') (limit fuel depth : Nat) :
    readValue limit (fuel + 1) depth ('[' :: text) =
      (readItems limit fuel (depth + 1) text).map
        (fun read => (held limit depth (some (.array read.1)), read.2)) := by
  obtain ⟨cs, first⟩ := List.head?_eq_some_iff.mp first
  simp only [readValue, skipSpace_cons (c := '[') (by decide), first]
  cases readItems limit fuel (depth + 1) text <;> simp [item]

theorem readValue_members {c : Char} {text : List Char} (first : (skipSpace text).head? = some c)
    (member : c ≠ '\x7d') (limit fuel depth : Nat) :
    readValue limit (fuel + 1) depth ('\x7b' :: text) =
      (readMembers limit fuel (depth + 1) text).map
        (fun read => (held limit depth (read.1.map Json.object), read.2)) := by
  obtain ⟨cs, first⟩ := List.head?_eq_some_iff.mp first
  simp only [readValue, skipSpace_cons (c := '\x7b') (by decide), first]
  cases readMembers limit fuel (depth + 1) text <;> simp [member]

theorem Plain.exists_write_cons {v : Json} (plain : v.Plain) (layout : Layout) (indent : Nat) :
    ∃ c cs, write layout indent v = c :: cs ∧ isSpace c = false ∧ c ≠ ']' := by
  cases plain with
  | null => exact ⟨_, _, rfl, by decide, by decide⟩
  | bool value => cases value <;> exact ⟨_, _, rfl, by decide, by decide⟩
  | @integer n fits =>
    obtain ⟨c, cs, written, number⟩ := exists_writeInteger_cons n
    exact ⟨c, cs, written, isSpace_of_startsNumber number, ne_of_startsNumber number (by decide)⟩
  | text value => exact ⟨_, _, rfl, by decide, by decide⟩
  | @array items each => cases items <;> exact ⟨_, _, rfl, by decide, by decide⟩
  | @object members each =>
    cases members with
    | nil => exact ⟨_, _, rfl, by decide, by decide⟩
    | cons member rest => exact ⟨_, _, rfl, by decide, by decide⟩

/-- A value is read back, at any depth and before any text that does not go on with it, if the reader has
two units of fuel for each character. -/
def ReadBack (layout : Layout) (limit : Nat) (v : Json) : Prop :=
  ∀ indent depth fuel rest, EndsNumber rest → 2 * (write layout indent v).length ≤ fuel →
    readValue limit fuel depth (write layout indent v ++ rest) = some (v.heldTo (limit - depth), rest)

theorem ReadBack.of_succ {layout : Layout} {limit : Nat} {v : Json} (plain : v.Plain)
    (read : ∀ indent depth fuel rest, EndsNumber rest → 2 * (write layout indent v).length ≤ fuel + 1 →
      readValue limit (fuel + 1) depth (write layout indent v ++ rest) =
        some (v.heldTo (limit - depth), rest)) : ReadBack layout limit v := by
  intro indent depth fuel rest ends enough
  obtain ⟨c, cs, written, -⟩ := plain.exists_write_cons layout indent
  have some_char : 0 < (write layout indent v).length := by
    rw [written]
    exact Nat.succ_pos _
  obtain ⟨fuel, rfl⟩ : ∃ less, fuel = less + 1 := ⟨fuel - 1, by omega⟩
  exact read indent depth fuel rest ends enough

theorem endsNumber_cons {c : Char} (stop : c.isDigit = false ∧ c ≠ '.' ∧ c ≠ 'e' ∧ c ≠ 'E')
    (cs : List Char) : EndsNumber (c :: cs) := by
  intro other here
  obtain rfl : c = other := Option.some.inj here
  exact stop

section Brackets

variable {layout : Layout} (blank : layout.Blank) {limit : Nat}

include blank

theorem skipSpace_closing (outer : Nat) {c : Char} (solid : isSpace c = false) (rest : List Char) :
    skipSpace (layout.lineBreak outer ++ c :: rest) = c :: rest := by
  rw [skipSpace_append (blank.lineBreak outer), skipSpace_cons solid]

theorem endsNumber_closing (outer : Nat) {c : Char}
    (stop : c.isDigit = false ∧ c ≠ '.' ∧ c ≠ 'e' ∧ c ≠ 'E') (rest : List Char) :
    EndsNumber (layout.lineBreak outer ++ c :: rest) :=
  (endsNumber_cons stop rest).append (blank.lineBreak outer)

theorem readItems_write {item : Json} {items : List Json} (first : ReadBack layout limit item)
    (others : ∀ v ∈ items, ReadBack layout limit v) (indent outer depth : Nat) {fuel : Nat}
    (enough : 2 * ((write layout indent item).length + (writeItems layout indent items).length) < fuel)
    (rest : List Char) :
    readItems limit fuel depth
        (write layout indent item ++
          (writeItems layout indent items ++ (layout.lineBreak outer ++ ']' :: rest))) =
      some ((item :: items).map (·.heldTo (limit - depth)), rest) := by
  -- the characters of the first item pay for the unit of fuel that is spent on it
  induction items generalizing item fuel with
  | nil =>
    obtain ⟨fuel, rfl⟩ : ∃ less, fuel = less + 1 := ⟨fuel - 1, by omega⟩
    have here := first indent depth fuel _
      (endsNumber_closing blank outer (c := ']') (by decide) rest) (by omega)
    simp only [readItems, writeItems, List.nil_append, here, Option.bind_eq_bind, Option.bind_some,
      skipSpace_closing blank outer (c := ']') (by decide)]
    rfl
  | cons next items ih =>
    obtain ⟨fuel, rfl⟩ : ∃ less, fuel = less + 1 := ⟨fuel - 1, by omega⟩
    simp only [writeItems, List.length_cons, List.length_append] at enough
    have here (rest : List Char) := first indent depth fuel (',' :: rest)
      (endsNumber_cons (by decide) rest) (by omega)
    have onward : readItems limit fuel depth _ = _ :=
      ih (others next List.mem_cons_self) (fun v member => others v (List.mem_cons_of_mem _ member))
        (by omega)
    simp only [readItems, writeItems, List.cons_append, List.append_assoc, here, Option.bind_eq_bind,
      Option.bind_some, skipSpace_cons (c := ',') (by decide), readItems_append (blank.lineBreak indent),
      onward]
    rfl

/-- A member is read up to its value in the same way whether or not another one follows. -/
theorem readMembers_named (name : String) (fuel depth : Nat) (text : List Char) :
    readMembers limit (fuel + 1) depth (quote name ++ (layout.colon ++ text)) =
      (readValue limit fuel depth text).bind (fun read =>
        match skipSpace read.2 with
        | ',' :: after =>
          (readMembers limit fuel depth after).map (fun more => (more.1.map ((name, read.1) :: ·), more.2))
        | '\x7d' :: after => some (some [(name, read.1)], after)
        | _ => none) := by
  obtain ⟨after, colon, blankAfter⟩ := blank.colon
  simp only [readMembers, quote, colon, List.cons_append, List.append_assoc, List.nil_append,
    skipSpace_cons (c := '"') (by decide), readString_quote, Option.bind_eq_bind, Option.bind_some,
    skipSpace_cons (c := ':') (by decide), readValue_append blankAfter]
  cases readValue limit fuel depth text with
  | none => rfl
  | some read =>
    simp only [Option.bind_some]
    rcases skipSpace read.2 with _ | ⟨c, rest⟩
    · rfl
    · by_cases comma : c = ','
      · subst comma
        change (readMembers limit fuel depth rest).bind _ = (readMembers limit fuel depth rest).map _
        cases readMembers limit fuel depth rest with
        | none => rfl
        | some more => cases members : more.1 <;> simp [members]
      · by_cases brace : c = '\x7d'
        · subst brace
          rfl
        · simp [comma, brace]

theorem readMembers_write (name : String) {value : Json} {members : List (String × Json)}
    (first : ReadBack layout limit value) (others : ∀ member ∈ members, ReadBack layout limit member.2)
    (indent outer depth : Nat) {fuel : Nat}
    (enough : 2 * ((write layout indent value).length + (writeMembers layout indent members).length) <
      fuel) (rest : List Char) :
    readMembers limit fuel depth
        (quote name ++ (layout.colon ++ (write layout indent value ++
          (writeMembers layout indent members ++ (layout.lineBreak outer ++ '\x7d' :: rest))))) =
      some (some (((name, value) :: members).map
        (fun member => (member.1, member.2.heldTo (limit - depth)))), rest) := by
  induction members generalizing name value fuel with
  | nil =>
    obtain ⟨fuel, rfl⟩ : ∃ less, fuel = less + 1 := ⟨fuel - 1, by omega⟩
    have here := first indent depth fuel _
      (endsNumber_closing blank outer (c := '\x7d') (by decide) rest) (by omega)
    rw [readMembers_named blank, writeMembers, List.nil_append, here, Option.bind_some]
    simp only [skipSpace_closing blank outer (c := '\x7d') (by decide)]
    rfl
  | cons next members ih =>
    obtain ⟨nextName, nextValue⟩ := next
    obtain ⟨fuel, rfl⟩ : ∃ less, fuel = less + 1 := ⟨fuel - 1, by omega⟩
    simp only [writeMembers, List.length_cons, List.length_append] at enough
    have here (rest : List Char) := first indent depth fuel (',' :: rest)
      (endsNumber_cons (by decide) rest) (by omega)
    have onward : readMembers limit fuel depth _ = _ :=
      ih nextName (others (nextName, nextValue) List.mem_cons_self)
        (fun member there => others member (List.mem_cons_of_mem _ there)) (by simp only; omega)
    simp only [readMembers_named blank, writeMembers, List.cons_append, List.append_assoc, here,
      Option.bind_some, skipSpace_cons (c := ',') (by decide), readMembers_append (blank.lineBreak indent),
      onward]
    rfl

theorem readBack_array {items : List Json} (each : ∀ item ∈ items, Plain item)
    (read : ∀ item ∈ items, ReadBack layout limit item) : ReadBack layout limit (.array items) := by
  refine .of_succ (.array each) (fun indent depth fuel rest ends enough => ?_)
  rw [← held_array]
  cases items with
  | nil =>
    simp [write, readValue, skipSpace_cons (c := '[') (by decide), skipSpace_cons (c := ']') (by decide)]
  | cons item items =>
    simp only [write, List.length_cons, List.length_append] at enough
    have inner : readItems limit fuel (depth + 1) _ = _ :=
      readItems_write blank (read item List.mem_cons_self)
        (fun v member => read v (List.mem_cons_of_mem _ member)) (indent + 1) indent (depth + 1)
        (by omega) rest
    obtain ⟨c, cs, written, solid, inside⟩ :=
      (each item List.mem_cons_self).exists_write_cons layout (indent + 1)
    simp only [write, List.cons_append, List.append_assoc, List.nil_append]
    rw [readValue_items _ inside, readItems_append (blank.lineBreak _), inner]
    · rfl
    · rw [skipSpace_append (blank.lineBreak _), written, List.cons_append, skipSpace_cons solid,
        List.head?_cons]

theorem readBack_object {members : List (String × Json)} (each : ∀ member ∈ members, Plain member.2)
    (read : ∀ member ∈ members, ReadBack layout limit member.2) :
    ReadBack layout limit (.object members) := by
  refine .of_succ (.object each) (fun indent depth fuel rest ends enough => ?_)
  rw [← held_object]
  rcases members with _ | ⟨⟨name, value⟩, members⟩
  · simp [write, readValue, skipSpace_cons (c := '\x7b') (by decide),
      skipSpace_cons (c := '\x7d') (by decide)]
  · simp only [write, List.length_cons, List.length_append] at enough
    have inner : readMembers limit fuel (depth + 1) _ = _ :=
      readMembers_write blank name (read (name, value) List.mem_cons_self)
        (fun member there => read member (List.mem_cons_of_mem _ there)) (indent + 1) indent (depth + 1)
        (by simp only; omega) rest
    simp only [write, List.cons_append, List.append_assoc, List.nil_append]
    rw [readValue_members (c := '"'), readMembers_append (blank.lineBreak _), inner]
    · rfl
    · rw [skipSpace_append (blank.lineBreak _), quote, List.cons_append, skipSpace_cons (by decide),
        List.head?_cons]
    · decide

theorem Plain.readBack {v : Json} (plain : v.Plain) : ReadBack layout limit v := by
  induction plain with
  | null =>
    refine .of_succ .null (fun indent depth fuel rest ends enough => ?_)
    rw [heldTo_null]
    simp only [write, List.cons_append, readValue, skipSpace_cons (c := 'n') (by decide)]
    rfl
  | bool value =>
    refine .of_succ (.bool value) (fun indent depth fuel rest ends enough => ?_)
    rw [heldTo_bool]
    cases value with
    | true =>
      simp only [write, List.cons_append, readValue, skipSpace_cons (c := 't') (by decide)]
      rfl
    | false =>
      simp only [write, List.cons_append, readValue, skipSpace_cons (c := 'f') (by decide)]
      rfl
  | @integer n fits =>
    refine .of_succ (.integer fits) (fun indent depth fuel rest ends enough => ?_)
    obtain ⟨c, cs, written, number⟩ := exists_writeInteger_cons n
    rw [heldTo_integer, write]
    have read := readNumber_writeInteger fits ends
    rw [written] at read ⊢
    rw [List.cons_append, readValue_number number, ← List.cons_append, read]
  | text value =>
    refine .of_succ (.text value) (fun indent depth fuel rest ends enough => ?_)
    rw [heldTo_text]
    simp [write, quote, readValue, skipSpace_cons (c := '"') (by decide), readString_quote]
  | array each ih => exact readBack_array blank each ih
  | object each ih => exact readBack_object blank each ih

end Brackets

theorem parse?_render {layout : Layout} (blank : layout.Blank) {v : Json} (plain : v.Plain) {after : String}
    (trailing : ∀ c ∈ after.toList, isSpace c = true) :
    parse? (v.render layout ++ after) = some (v.heldTo nestingLimit) := by
  have ends : EndsNumber (after.toList ++ []) := EndsNumber.append trailing (by simp [EndsNumber])
  have rest : skipSpace after.toList = [] := by
    simpa [skipSpace] using skipSpace_append trailing []
  rw [List.append_nil] at ends
  have read : readValue nestingLimit (2 * (write layout 0 v ++ after.toList).length + 2) 0 _ = _ :=
    plain.readBack blank 0 0 _ after.toList ends (by rw [List.length_append]; omega)
  rw [parse?, render, String.toList_append, String.toList_ofList, readChars?, read]
  simp only [rest, List.isEmpty_nil, if_true]
  rfl

end IdlDirectives.Json
