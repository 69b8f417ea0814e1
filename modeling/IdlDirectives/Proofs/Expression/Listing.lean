import IdlDirectives.Proofs.Expression.Commas
import IdlDirectives.Proofs.Selection.Terminals
import Mathlib.Data.List.Nodup

namespace IdlDirectives

namespace Expression

def IsName (selector : String) : Prop :=
  selector ≠ "" ∧ ∀ c ∈ selector.toList, c ∉ delimiters

instance (selector : String) : Decidable (IsName selector) :=
  inferInstanceAs (Decidable (_ ∧ _))

theorem Name.isName (n : Name) : IsName n.text := by
  refine ⟨n.text_ne_empty, ?_⟩
  rw [Name.text, String.toList_ofList]
  exact n.plain

theorem exists_names {path : List String} (plain : ∀ selector ∈ path, IsName selector) :
    ∃ names : List Name, path = names.map (·.text) := by
  induction path with
  | nil => exact ⟨[], rfl⟩
  | cons selector path ih =>
    obtain ⟨names, rfl⟩ := ih (fun other member => plain other (List.mem_cons_of_mem _ member))
    obtain ⟨named, plain⟩ := plain selector List.mem_cons_self
    let n : Name := ⟨selector.toList, by simpa using named, plain⟩
    exact ⟨n :: names, by simp [n, Name.text, String.ofList_toList]⟩

mutual

theorem Items.Denotes.exists_names {node path : List String} :
    ∀ {items : Items}, items.Denotes node path → ∃ names, path = below node names
  | .one _, h => Item.Denotes.exists_names h
  | .more _ _, .inl h => Item.Denotes.exists_names h
  | .more _ _, .inr h => Items.Denotes.exists_names h

theorem Item.Denotes.exists_names {node path : List String} :
    ∀ {item : Item}, item.Denotes node path → ∃ names, path = below node names
  | .mk names _, .inl ⟨count, _, _, same⟩ => ⟨names.take count, same⟩
  | .mk names tail, .inr h => by
    obtain ⟨more, same⟩ := Tail.Denotes.exists_names h
    exact ⟨names ++ more, by simp [same, below]⟩

theorem Tail.Denotes.exists_names {node path : List String} :
    ∀ {tail : Tail}, tail.Denotes node path → ∃ names, path = below node names
  | .empty, h => h.elim
  | .name n, h => ⟨[n], h⟩
  | .group _, h => Items.Denotes.exists_names h

end

def Item.under (n : Name) : Item → Item
  | .mk names tail => .mk (n :: names) tail

def Item.ofNames (n : Name) : List Name → Item
  | [] => .mk [] (.name n)
  | m :: names => (ofNames m names).under n

theorem Item.text_ofNames (n : Name) (names : List Name) :
    (ofNames n names).text = n.chars ++ names.flatMap (fun m => '.' :: m.chars) := by
  induction names generalizing n with
  | nil => simp [ofNames, text, Tail.text]
  | cons m names ih =>
    have first (item : Item) : (item.under n).text = n.chars ++ '.' :: item.text := by
      cases item with
      | mk names tail => exact text_cons n names tail
    rw [ofNames, first, ih]
    simp

theorem Item.denotes_ofNames {node path : List String} {n : Name} {names : List Name} :
    (ofNames n names).Denotes node path ↔
      ∃ more, more <+: names.map (·.text) ∧ path = node ++ n.text :: more := by
  induction names generalizing n node with
  | nil => simp [ofNames, denotes_nil, Tail.Denotes]
  | cons m names ih =>
    have first (item : Item) : (item.under n).Denotes node path ↔
        path = node ++ [n.text] ∨ item.Denotes (node ++ [n.text]) path := by
      cases item with
      | mk names tail => exact denotes_cons
    rw [ofNames, first, ih, List.map_cons]
    constructor
    · rintro (rfl | ⟨more, within, rfl⟩)
      · exact ⟨[], List.nil_prefix, rfl⟩
      · exact ⟨m.text :: more, List.cons_prefix_cons.mpr ⟨rfl, within⟩, by simp⟩
    · rintro ⟨more, within, rfl⟩
      rcases List.prefix_cons_iff.mp within with rfl | ⟨more, rfl, onward⟩
      · exact .inl rfl
      · exact .inr ⟨more, onward, by simp⟩

theorem toList_foldl_dotted (names : List Name) {text : String} (begun : text ≠ "") :
    ((names.map (·.text)).foldl
        (fun text selector => if text.isEmpty then selector else text ++ "." ++ selector) text).toList =
      text.toList ++ names.flatMap (fun m => '.' :: m.chars) := by
  induction names generalizing text with
  | nil => simp
  | cons m names ih =>
    have longer : text ++ "." ++ m.text ≠ "" := by simp
    rw [List.map_cons, List.foldl_cons, if_neg (by simpa using begun), ih longer]
    simp [String.toList_append, Name.text]

theorem toList_dotted (n : Name) (names : List Name) :
    (dotted ((n :: names).map (·.text))).toList = (Item.ofNames n names).text := by
  rw [Item.text_ofNames, dotted, List.map_cons, List.foldl_cons, if_pos (by rfl),
    toList_foldl_dotted names n.text_ne_empty, Name.text, String.toList_ofList]

theorem parse_dotted (names : List Name) :
    ∃ s, parse (dotted (names.map (·.text))) = .ok s ∧
      ∀ path, s.Contains path ↔ path <+: names.map (·.text) := by
  cases names with
  | nil => exact ⟨.whole, rfl, fun path => by simp [Selection.contains_whole]⟩
  | cons n names =>
    obtain ⟨s, parsed, contains⟩ := parse_text (.one (Item.ofNames n names))
    rw [Items.text, ← toList_dotted, String.ofList_toList] at parsed
    refine ⟨s, parsed, fun path => ?_⟩
    rw [contains, Items.Denotes, Item.denotes_ofNames, List.map_cons, List.prefix_cons_iff]
    simp only [List.nil_append, and_comm]

theorem dotted_inj {names names' : List Name}
    (same : dotted (names.map (·.text)) = dotted (names'.map (·.text))) :
    names.map (·.text) = names'.map (·.text) := by
  obtain ⟨s, parsed, contains⟩ := parse_dotted names
  obtain ⟨t, parsed', contains'⟩ := parse_dotted names'
  rw [same, parsed'] at parsed
  obtain rfl := Except.ok.inj parsed
  have within := (contains' _).mp ((contains _).mpr (List.prefix_refl _))
  have within' := (contains _).mp ((contains' _).mpr (List.prefix_refl _))
  exact within.eq_of_length (Nat.le_antisymm within.length_le within'.length_le)

end Expression

open Expression

def Selection.Plain (s : Selection) : Prop :=
  ∀ path ∈ s.walk, ∀ selector ∈ path, IsName selector

instance (s : Selection) : Decidable s.Plain :=
  inferInstanceAs (Decidable (∀ _ ∈ _, _))

namespace Selection

variable {s : Selection}

theorem Plain.exists_names (plain : s.Plain) {path : List String} (there : s.Contains path) :
    ∃ names : List Name, path = names.map (·.text) :=
  Expression.exists_names (plain path (mem_walk.mpr there))

theorem mem_terminals {path : List String} :
    path ∈ s.branches.terminals ↔ path ≠ [] ∧ s.Terminal path :=
  Branches.mem_terminals s.ordered

theorem Plain.exists_names_of_terminal (plain : s.Plain) {path : List String}
    (listed : path ∈ s.branches.terminals) : ∃ names : List Name, path = names.map (·.text) :=
  plain.exists_names (mem_terminals.mp listed).2.contains

theorem plain_of_parse {expression : String} (parsed : parse expression = .ok s) : s.Plain := by
  obtain ⟨items, -, contains⟩ := exists_items_of_parse parsed
  intro path member selector part
  rcases (contains path).mp (mem_walk.mp member) with rfl | denoted
  · cases part
  · obtain ⟨names, rfl⟩ := denoted.exists_names
    obtain ⟨n, -, rfl⟩ := List.mem_map.mp part
    exact n.isName

theorem terminals_nodup (s : Selection) : s.branches.terminals.Nodup := by
  have apart : ∀ {path path' : List String}, path < path' → path ≠ path' := by
    rintro path _ less rfl
    exact List.lt_irrefl path less
  rw [terminals_eq_filter_walk]
  exact (s.walk_sorted.imp apart).filter _

theorem Plain.paths_nodup (plain : s.Plain) : s.paths.Nodup := by
  refine List.Nodup.map_on ?_ s.terminals_nodup
  intro path listed path' listed' same
  obtain ⟨names, rfl⟩ := plain.exists_names_of_terminal listed
  obtain ⟨names', rfl⟩ := plain.exists_names_of_terminal listed'
  exact dotted_inj same

theorem Plain.parse_paths (plain : s.Plain) : parse (",".intercalate s.paths) = .ok s := by
  have selected : ∀ path ∈ s.branches.terminals, ∃ t, parse (dotted path) = .ok t ∧
      ∀ node, t.Contains node ↔ node <+: path := by
    intro path listed
    obtain ⟨names, rfl⟩ := plain.exists_names_of_terminal listed
    exact parse_dotted names
  have readable : ∀ part ∈ s.paths, Readable part := by
    intro part member
    obtain ⟨path, listed, rfl⟩ := List.mem_map.mp member
    obtain ⟨t, parsed, -⟩ := selected path listed
    exact ⟨t, parsed⟩
  obtain ⟨t, parsed, contains⟩ := parse_commas readable
  have equal : t = s := by
    apply ext_of_contains
    intro node
    rw [contains]
    constructor
    · rintro (rfl | ⟨part, member, chosen⟩)
      · exact s.contains_nil
      · obtain ⟨path, listed, rfl⟩ := List.mem_map.mp member
        obtain ⟨u, parsed, below⟩ := selected path listed
        obtain ⟨more, same⟩ := (below node).mp ((selects_iff parsed).mp chosen)
        have there := (mem_terminals.mp listed).2.contains
        rw [← same] at there
        exact there.of_prefix
    · intro there
      by_cases root : node = []
      · exact .inl root
      · obtain ⟨path, terminal, within⟩ := exists_terminal_of_contains there
        have below : path ≠ [] := by
          rintro rfl
          exact root (List.prefix_nil.mp within)
        have listed : path ∈ s.branches.terminals := mem_terminals.mpr ⟨below, terminal⟩
        obtain ⟨u, parsed, onWay⟩ := selected path listed
        exact .inr ⟨dotted path, List.mem_map_of_mem listed,
          (selects_iff parsed).mpr ((onWay node).mpr within)⟩
  rw [parsed, equal]

theorem Plain.paths_inj {t : Selection} (plain : s.Plain) (plain' : t.Plain)
    (same : t.paths = s.paths) : t = s := by
  have read := plain.parse_paths
  rw [← same, plain'.parse_paths] at read
  exact Except.ok.inj read

end Selection

/-- What can be read has names for selectors, and is what its listing reads as. The listing has one entry
for each terminal node, and no entry twice; the root of the empty selection has none. -/
theorem listing_reads_back :
    (∀ expression s, parse expression = .ok s → s.Plain) ∧
      ∀ s : Selection, s.Plain →
        parse (",".intercalate s.paths) = .ok s ∧
          (∀ t : Selection, t.Plain → t.paths = s.paths → t = s) ∧
          s.paths.Nodup ∧
          ∃ nodes : List (List String), nodes.Nodup ∧
            (∀ path, path ∈ nodes ↔ path ≠ [] ∧ s.Terminal path) ∧ s.paths = nodes.map dotted := by
  refine ⟨fun expression s parsed => Selection.plain_of_parse parsed, fun s plain => ?_⟩
  refine ⟨plain.parse_paths, fun t plain' same => plain.paths_inj plain' same, plain.paths_nodup, ?_⟩
  exact ⟨s.branches.terminals, s.terminals_nodup, fun path => Selection.mem_terminals, rfl⟩

theorem listing_reads_back_wildcards :
    let s := (Selection.whole.insert ["list", "[*]", "x"]).insert ["list", "y"]
    s.Plain ∧ s.paths = ["list.[*].x", "list.y"] ∧ parse "list.[*].x,list.y" = .ok s := by
  intro s
  have given : parse "list.(y,[*].x)" = .ok s := by decide +kernel
  have plain : s.Plain := listing_reads_back.1 _ s given
  have listed : s.paths = ["list.[*].x", "list.y"] := rfl
  have read := (listing_reads_back.2 s plain).1
  rw [listed] at read
  exact ⟨plain, listed, read⟩

theorem paths_omit_root :
    parse "" = .ok .whole ∧ Selection.whole.Plain ∧ Selection.whole.Terminal [] ∧
      ¬ ∃ nodes : List (List String), nodes.Nodup ∧
        (∀ path, path ∈ nodes ↔ Selection.whole.Terminal path) ∧
          Selection.whole.paths = nodes.map dotted := by
  refine ⟨parse_empty, by decide, rfl, ?_⟩
  rintro ⟨nodes, -, complete, listed⟩
  have root : [] ∈ nodes := (complete []).mpr rfl
  have none : nodes = [] := List.map_eq_nil_iff.mp listed.symm
  rw [none] at root
  cases root

end IdlDirectives
