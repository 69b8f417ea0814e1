import IdlDirectives.Selection.Expression

namespace IdlDirectives.Expression

def delimiters : List Char := ['.', '(', ')', ',']

structure Name where
  chars : List Char
  nonempty : chars ≠ []
  plain : ∀ c ∈ chars, c ∉ delimiters

def Name.text (n : Name) : String :=
  String.ofList n.chars

mutual

/-- In short, `items := item (',' item)*`, `item := (name '.')* tail` and `tail := empty | name | '(' items ')'`. -/
inductive Items where
  | one (item : Item)
  | more (item : Item) (others : Items)

inductive Item where
  | mk (names : List Name) (tail : Tail)

inductive Tail where
  | empty
  | name (n : Name)
  | group (items : Items)

end

mutual

def Items.text : Items → List Char
  | .one item => item.text
  | .more item others => item.text ++ ',' :: others.text

def Item.text : Item → List Char
  | .mk names tail => names.flatMap (fun n => n.chars ++ ['.']) ++ tail.text

def Tail.text : Tail → List Char
  | .empty => []
  | .name n => n.chars
  | .group items => '(' :: items.text ++ [')']

end

def below (node : List String) (names : List Name) : List String :=
  node ++ names.map (·.text)

mutual

def Items.Denotes (node : List String) : Items → List String → Prop
  | .one item, path => item.Denotes node path
  | .more item others, path => item.Denotes node path ∨ others.Denotes node path

/-- An item hung off `node` denotes the node of each of its names before a dot, and what its tail
denotes below the last of them. -/
def Item.Denotes (node : List String) : Item → List String → Prop
  | .mk names tail, path =>
    (∃ count, 1 ≤ count ∧ count ≤ names.length ∧ path = below node (names.take count)) ∨
      tail.Denotes (below node names) path

def Tail.Denotes (node : List String) : Tail → List String → Prop
  | .empty, _ => False
  | .name n, path => path = node ++ [n.text]
  | .group items, path => items.Denotes node path

end

theorem Name.text_ne_empty (n : Name) : n.text ≠ "" := by
  intro empty
  have := congrArg String.toList empty
  simp only [Name.text, String.toList_ofList, String.toList_empty] at this
  exact n.nonempty this

theorem Item.text_cons (n : Name) (names : List Name) (tail : Tail) :
    (Item.mk (n :: names) tail).text = n.chars ++ '.' :: (Item.mk names tail).text := by
  simp [Item.text]

theorem below_nil (node : List String) : below node [] = node := by
  simp [below]

theorem below_cons (node : List String) (n : Name) (names : List Name) :
    below node (n :: names) = below (node ++ [n.text]) names := by
  simp [below]

theorem exists_below_take_cons {node path : List String} {n : Name} {names : List Name} :
    (∃ count, 1 ≤ count ∧ count ≤ (n :: names).length ∧
        path = below node ((n :: names).take count)) ↔
      path = node ++ [n.text] ∨
        ∃ count, 1 ≤ count ∧ count ≤ names.length ∧
          path = below (node ++ [n.text]) (names.take count) := by
  constructor
  · rintro ⟨count, positive, bound, rfl⟩
    obtain ⟨count, rfl⟩ := Nat.exists_eq_add_of_le' positive
    rw [List.take_succ_cons, below_cons]
    cases count with
    | zero => exact .inl (below_nil _)
    | succ count => exact .inr ⟨count + 1, by omega, by simpa using bound, rfl⟩
  · rintro (rfl | ⟨count, positive, bound, rfl⟩)
    · exact ⟨1, by omega, by simp, by simp [below]⟩
    · exact ⟨count + 1, by omega, by simpa using bound, by rw [List.take_succ_cons, below_cons]⟩

theorem Item.denotes_cons {node path : List String} {n : Name} {names : List Name} {tail : Tail} :
    (Item.mk (n :: names) tail).Denotes node path ↔
      path = node ++ [n.text] ∨ (Item.mk names tail).Denotes (node ++ [n.text]) path := by
  rw [Item.Denotes, Item.Denotes, exists_below_take_cons, below_cons, or_assoc]

theorem Item.denotes_nil {node path : List String} {tail : Tail} :
    (Item.mk [] tail).Denotes node path ↔ tail.Denotes node path := by
  have none : ¬ ∃ count, 1 ≤ count ∧ count ≤ 0 ∧ path = below node (([] : List Name).take count) := by
    rintro ⟨count, positive, bound, -⟩
    omega
  rw [Item.Denotes, below_nil]
  exact or_iff_right none

mutual

theorem Items.Denotes.ne_root {node path : List String} :
    ∀ {items : Items}, items.Denotes node path → path ≠ []
  | .one _, h => Item.Denotes.ne_root h
  | .more _ _, .inl h => Item.Denotes.ne_root h
  | .more _ _, .inr h => Items.Denotes.ne_root h

theorem Item.Denotes.ne_root {node path : List String} :
    ∀ {item : Item}, item.Denotes node path → path ≠ []
  | .mk names tail, .inl ⟨count, positive, bound, same⟩ => by
    rw [same]
    intro root
    have long := congrArg List.length root
    simp only [below, List.length_append, List.length_map, List.length_take, List.length_nil] at long
    omega
  | .mk _ _, .inr h => Tail.Denotes.ne_root h

theorem Tail.Denotes.ne_root {node path : List String} :
    ∀ {tail : Tail}, tail.Denotes node path → path ≠ []
  | .empty, h => h.elim
  | .name n, h => by
    rw [show path = node ++ [n.text] from h]
    simp
  | .group _, h => Items.Denotes.ne_root h

end

end IdlDirectives.Expression
