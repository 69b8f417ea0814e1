import IdlDirectives.Proofs.Expression.Errors
import IdlDirectives.Proofs.Selection.Union

namespace IdlDirectives.Expression

def Items.append : Items → Items → Items
  | .one item, others => .more item others
  | .more item rest, others => .more item (rest.append others)

theorem Items.text_append (items others : Items) :
    (items.append others).text = items.text ++ ',' :: others.text := by
  cases items with
  | one item => simp [append, text]
  | more item rest => simp [append, text, text_append rest others]

theorem Items.denotes_append (items others : Items) {node path : List String} :
    (items.append others).Denotes node path ↔ items.Denotes node path ∨ others.Denotes node path := by
  cases items with
  | one item => simp [append, Denotes]
  | more item rest => simp [append, Denotes, denotes_append rest others, or_assoc]

theorem exists_items_of_parse {expression : String} {s : Selection}
    (parsed : parse expression = .ok s) :
    ∃ items : Items, items.text = expression.toList ∧
      ∀ path, s.Contains path ↔ path = [] ∨ items.Denotes [] path := by
  obtain ⟨r, ran, closed, -⟩ := parse_eq_ok.mp parsed
  obtain ⟨item, rest, same, ending⟩ := demands_of_run Reader.start_consistent ran closed
  obtain ⟨items, written⟩ := Ending.items ending item
  have text : items.text = expression.toList := written.trans same.symm
  obtain ⟨s', parsed', contains⟩ := parse_text items
  rw [text, String.ofList_toList, parsed] at parsed'
  obtain rfl := Except.ok.inj parsed'
  exact ⟨items, text, contains⟩

theorem parse_comma {first second : String} {s t : Selection} (parsed : parse first = .ok s)
    (parsed' : parse second = .ok t) : parse (first ++ "," ++ second) = .ok (s.merge t) := by
  obtain ⟨items, text, contains⟩ := exists_items_of_parse parsed
  obtain ⟨items', text', contains'⟩ := exists_items_of_parse parsed'
  obtain ⟨joined, read, contains''⟩ := parse_text (items.append items')
  have written : String.ofList (items.append items').text = first ++ "," ++ second := by
    apply String.toList_inj.mp
    simp [Items.text_append, text, text', String.toList_append]
  have merged : joined = s.merge t := by
    apply Selection.ext_of_contains
    intro path
    rw [contains'', Items.denotes_append, Selection.contains_merge, contains, contains', or_or_distrib_left]
  rw [← written, read, merged]

def Selects (expression : String) (path : List String) : Prop :=
  ∃ s, parse expression = .ok s ∧ s.Contains path

theorem selects_iff {expression : String} {s : Selection} (parsed : parse expression = .ok s)
    {path : List String} : Selects expression path ↔ s.Contains path := by
  simp [Selects, parsed]

theorem parse_empty : parse "" = .ok .whole := rfl

theorem parse_commas {parts : List String} (readable : ∀ part ∈ parts, Readable part) :
    ∃ s, parse (",".intercalate parts) = .ok s ∧
      ∀ path, s.Contains path ↔ path = [] ∨ ∃ part ∈ parts, Selects part path := by
  -- each comma merges one more part
  induction parts with
  | nil =>
    refine ⟨.whole, parse_empty, fun path => ?_⟩
    simp [Selection.contains_whole]
  | cons first rest ih =>
    obtain ⟨s, parsed⟩ := readable first List.mem_cons_self
    obtain ⟨t, parsed', contains⟩ := ih (fun part member => readable part (List.mem_cons_of_mem _ member))
    by_cases last : rest = []
    · subst last
      refine ⟨s, by simpa using parsed, fun path => ?_⟩
      simp only [List.mem_singleton, exists_eq_left, selects_iff parsed]
      constructor
      · exact .inr
      · rintro (rfl | there)
        · exact s.contains_nil
        · exact there
    · refine ⟨s.merge t, ?_, fun path => ?_⟩
      · rw [String.intercalate_cons_of_ne_nil last]
        exact parse_comma parsed parsed'
      · simp only [Selection.contains_merge, contains, List.mem_cons, or_and_right, exists_or,
          exists_eq_left, selects_iff parsed]
        exact or_left_comm

/-- Which parts there are is all that counts. -/
theorem parse_commas_congr {parts parts' : List String} (readable : ∀ part ∈ parts, Readable part)
    (same : ∀ part, part ∈ parts ↔ part ∈ parts') :
    parse (",".intercalate parts) = parse (",".intercalate parts') := by
  obtain ⟨s, parsed, contains⟩ := parse_commas readable
  obtain ⟨t, parsed', contains'⟩ :=
    parse_commas (fun part member => readable part ((same part).mpr member))
  have equal : s = t := by
    apply Selection.ext_of_contains
    intro path
    simp only [contains, contains', same]
  rw [parsed, parsed', equal]

end IdlDirectives.Expression
