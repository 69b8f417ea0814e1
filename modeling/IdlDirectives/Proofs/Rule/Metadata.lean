import IdlDirectives.Proofs.Directive
import IdlDirectives.Rule.Metadata
import Mathlib.Data.List.TakeWhile

namespace IdlDirectives

theorem Directive.param_ne_empty {d : Directive} {param : String} (given : param ∈ d.params) :
    param ≠ "" := by
  obtain ⟨word, member, rfl⟩ := List.mem_map.mp given
  have solid := (List.mem_filter.mp member).2
  intro empty
  rw [show word = [] by simpa using congrArg String.toList empty] at solid
  cases solid

namespace MetadataEntry

theorem toNat_toLower (c : Char) :
    c.toLower.toNat = if 65 ≤ c.toNat ∧ c.toNat ≤ 90 then c.toNat + 32 else c.toNat := by
  have upper : (c.val ≥ 'A'.val ∧ c.val ≤ 'Z'.val) ↔ 65 ≤ c.toNat ∧ c.toNat ≤ 90 := Iff.rfl
  unfold Char.toLower
  by_cases capital : c.val ≥ 'A'.val ∧ c.val ≤ 'Z'.val
  · rw [dif_pos capital, if_pos (upper.mp capital)]
    have bound := (upper.mp capital).2
    change (c.val + ('a'.val - 'A'.val)).toNat = c.val.toNat + 32
    change c.val.toNat ≤ 90 at bound
    rw [UInt32.toNat_add, show ('a'.val - 'A'.val).toNat = 32 from rfl, Nat.mod_eq_of_lt (by omega)]
  · rw [dif_neg capital, if_neg (mt upper.mpr capital)]

theorem toLower_eq_iff {c lower upper : Char} (letter : 65 ≤ upper.toNat ∧ upper.toNat ≤ 90)
    (apart : lower.toNat = upper.toNat + 32) : c.toLower = lower ↔ c = lower ∨ c = upper := by
  rw [← Char.toNat_inj, ← Char.toNat_inj, ← Char.toNat_inj, toNat_toLower]
  split <;> omega

def asWords : List String := ["as", "aS", "As", "AS"]

theorem isAs_iff {word : String} : isAs word = true ↔ word ∈ asWords := by
  have a (c : Char) : c.toLower = 'a' ↔ c = 'a' ∨ c = 'A' := toLower_eq_iff (by decide) (by decide)
  have s (c : Char) : c.toLower = 's' ↔ c = 's' ∨ c = 'S' := toLower_eq_iff (by decide) (by decide)
  obtain ⟨text, rfl⟩ : ∃ text, word = String.ofList text := ⟨word.toList, String.ofList_toList.symm⟩
  rw [isAs, String.toList_ofList, beq_iff_eq]
  rcases text with _ | ⟨first, _ | ⟨second, _ | ⟨third, more⟩⟩⟩
  · simp [asWords, ← String.toList_inj]
  · simp [asWords, ← String.toList_inj]
  · have spelled : "as".toList = ['a', 's'] ∧ "aS".toList = ['a', 'S'] ∧ "As".toList = ['A', 's'] ∧
        "AS".toList = ['A', 'S'] := ⟨rfl, rfl, rfl, rfl⟩
    simp only [List.map_cons, List.map_nil, asWords, List.mem_cons, List.not_mem_nil, or_false,
      ← String.toList_inj, String.toList_ofList, spelled, List.cons.injEq, and_true, a, s]
    rw [or_and_right, and_or_left, and_or_left, or_assoc]
  · simp [asWords, ← String.toList_inj]

theorem isAs_eq_false {word : String} : isAs word = false ↔ word ∉ asWords := by
  rw [← isAs_iff, Bool.not_eq_true]

theorem ofWords_unmarked (first : String) {rest : List String} (unmarked : ∀ word ∈ rest, isAs word = false) :
    ofWords first rest = .ok ⟨String.join (first :: rest), String.join (first :: rest)⟩ := by
  have plain : ∀ word ∈ rest, (!isAs word) = true := fun word member => by rw [unmarked word member]; rfl
  rw [ofWords, List.takeWhile_eq_self_iff.mpr plain, List.dropWhile_eq_nil_iff.mpr plain]

theorem ofWords_marked (first : String) {before : List String} {mark : String}
    (unmarked : ∀ word ∈ before, isAs word = false) (marks : isAs mark = true) (name : List String) :
    ofWords first (before ++ mark :: name) =
      if name = [] then .error .missingMetadataName
      else .ok ⟨" ".intercalate name, String.join (first :: before)⟩ := by
  have plain : ∀ word ∈ before, (!isAs word) = true := fun word member => by rw [unmarked word member]; rfl
  have taken : (before ++ mark :: name).takeWhile (!isAs ·) = before := by
    rw [List.takeWhile_append_of_pos plain, List.takeWhile_cons_of_neg (by simp [marks]), List.append_nil]
  have dropped : (before ++ mark :: name).dropWhile (!isAs ·) = mark :: name := by
    rw [List.dropWhile_append_of_pos plain, List.dropWhile_cons_of_neg (by simp [marks])]
  rw [ofWords, taken, dropped]
  cases name with
  | nil => rfl
  | cons word more => rfl

theorem exists_split (rest : List String) :
    (∀ word ∈ rest, isAs word = false) ∨
      ∃ before mark name, rest = before ++ mark :: name ∧ (∀ word ∈ before, isAs word = false) ∧
        isAs mark = true := by
  induction rest with
  | nil => exact .inl nofun
  | cons word rest ih =>
    cases marks : isAs word with
    | true => exact .inr ⟨[], word, rest, rfl, nofun, marks⟩
    | false =>
      rcases ih with unmarked | ⟨before, mark, name, rfl, unmarked, marks'⟩
      · exact .inl (List.forall_mem_cons.mpr ⟨marks, unmarked⟩)
      · exact .inr ⟨word :: before, mark, name, rfl, List.forall_mem_cons.mpr ⟨marks, unmarked⟩, marks'⟩

end MetadataEntry

inductive Directive.Defines (d : Directive) : MetadataEntry → Prop
  | unnamed {words : List String} (own : d.flag = "metadata") (given : d.params = "ws" :: words)
      (expression : words ≠ []) (unmarked : ∀ word ∈ words.tail, word ∉ MetadataEntry.asWords) :
      Defines d ⟨String.join words, String.join words⟩
  | named {words name : List String} {mark : String} (own : d.flag = "metadata")
      (given : d.params = "ws" :: (words ++ mark :: name)) (expression : words ≠ [])
      (unmarked : ∀ word ∈ words.tail, word ∉ MetadataEntry.asWords)
      (marks : mark ∈ MetadataEntry.asWords) (named : name ≠ []) :
      Defines d ⟨" ".intercalate name, String.join words⟩

namespace Directive

theorem defines_iff {d : Directive} {entry : MetadataEntry} :
    d.Defines entry ↔ d.flag = "metadata" ∧ ∃ first rest,
      d.params = "ws" :: first :: rest ∧ MetadataEntry.ofWords first rest = .ok entry := by
  constructor
  · rintro (⟨own, given, expression, unmarked⟩ | ⟨own, given, expression, unmarked, marks, named⟩)
    · next words =>
      obtain ⟨first, rest, rfl⟩ := List.exists_cons_of_ne_nil expression
      refine ⟨own, first, rest, given, MetadataEntry.ofWords_unmarked first (fun word member => ?_)⟩
      exact MetadataEntry.isAs_eq_false.mpr (unmarked word member)
    · next words name mark =>
      obtain ⟨first, rest, rfl⟩ := List.exists_cons_of_ne_nil expression
      refine ⟨own, first, rest ++ mark :: name, given, ?_⟩
      have plain : ∀ word ∈ rest, MetadataEntry.isAs word = false :=
        fun word member => MetadataEntry.isAs_eq_false.mpr (unmarked word member)
      rw [MetadataEntry.ofWords_marked first plain (MetadataEntry.isAs_iff.mpr marks), if_neg named]
  · rintro ⟨own, first, rest, given, defined⟩
    rcases MetadataEntry.exists_split rest with unmarked | ⟨before, mark, name, rfl, unmarked, marks⟩
    · rw [MetadataEntry.ofWords_unmarked first unmarked] at defined
      cases defined
      exact .unnamed own given (by simp)
        (fun word member => MetadataEntry.isAs_eq_false.mp (unmarked word member))
    · rw [MetadataEntry.ofWords_marked first unmarked marks] at defined
      split at defined
      · cases defined
      · next named =>
        cases defined
        exact .named own given (by simp)
          (fun word member => MetadataEntry.isAs_eq_false.mp (unmarked word member))
          (MetadataEntry.isAs_iff.mp marks) named

theorem Defines.unique {d : Directive} {entry other : MetadataEntry} (defined : d.Defines entry)
    (defined' : d.Defines other) : entry = other := by
  obtain ⟨-, first, rest, given, read⟩ := defines_iff.mp defined
  obtain ⟨-, first', rest', given', read'⟩ := defines_iff.mp defined'
  rw [given] at given'
  cases given'
  rw [read] at read'
  exact Except.ok.inj read'

theorem param_solid {d : Directive} {param : String} (given : param ∈ d.params) :
    ∀ c ∈ param.toList, Text.isBlank c = false := by
  obtain ⟨word, member, rfl⟩ := List.mem_map.mp given
  rw [String.toList_ofList]
  exact Text.not_separator_of_mem (List.mem_filter.mp member).1

theorem ends_spaced {words : List String} (named : ∀ word ∈ words, word ≠ "") :
    (" ".intercalate words).toList.head? = words.head?.bind (·.toList.head?) ∧
      (" ".intercalate words).toList.getLast? = words.getLast?.bind (·.toList.getLast?) := by
  induction words with
  | nil => exact ⟨rfl, rfl⟩
  | cons word words ih =>
    obtain ⟨own, others⟩ := List.forall_mem_cons.mp named
    cases words with
    | nil => simp
    | cons next words =>
      have final : next :: words ≠ [] := List.cons_ne_nil next words
      have closing : ((next :: words).getLast final).toList ≠ [] := by
        simpa using others _ (List.getLast_mem final)
      rw [String.intercalate_cons_cons, String.toList_append, String.toList_append]
      constructor
      · obtain ⟨c, cs, text⟩ := List.exists_cons_of_ne_nil (show word.toList ≠ [] by simpa using own)
        simp [text]
      · rw [List.getLast?_append, (ih others).2, List.getLast?_cons_cons, List.getLast?_eq_some_getLast final,
          Option.bind_some, List.getLast?_eq_some_getLast closing, Option.some_or]

/-- A name behind `as` is trimmed already. -/
theorem Defines.trim_name {d : Directive} {entry : MetadataEntry} (defined : d.Defines entry) :
    Text.trim entry.name.toList = entry.name.toList := by
  rcases defined with ⟨own, given, expression, unmarked⟩ | ⟨own, given, expression, unmarked, marks, named⟩
  · next words =>
    have solid : ∀ c ∈ (String.join words).toList, Text.isBlank c = false := by
      intro c member
      rw [String.toList_join, List.mem_flatMap] at member
      obtain ⟨word, listed, member⟩ := member
      have param : word ∈ d.params := by simp [given, listed]
      exact param_solid param c member
    rw [Text.trim, Text.trimStart_eq_self (fun c first => solid c (List.mem_of_mem_head? first)),
      Text.trimEnd_solid solid]
  · next words name mark =>
    have param {word : String} (listed : word ∈ name) : word ∈ d.params := by simp [given, listed]
    obtain ⟨first, last⟩ := ends_spaced (fun word listed => param_ne_empty (param listed))
    refine Eq.trans (congrArg Text.trimEnd (Text.trimStart_eq_self ?_)) (Text.trimEnd_eq_self ?_)
    · intro c starts
      rw [first] at starts
      obtain ⟨word, head, starts⟩ := Option.bind_eq_some_iff.mp starts
      exact param_solid (param (List.mem_of_mem_head? head)) c (List.mem_of_mem_head? starts)
    · intro c ends
      rw [last] at ends
      obtain ⟨word, final, ends⟩ := Option.bind_eq_some_iff.mp ends
      exact param_solid (param (List.mem_of_mem_getLast? final)) c (List.mem_of_mem_getLast? ends)

theorem Defines.nonempty {d : Directive} {entry : MetadataEntry} (defined : d.Defines entry) :
    entry.name ≠ "" ∧ entry.expression ≠ "" := by
  have solid : ∀ param ∈ d.params, param ≠ "" := fun param => param_ne_empty
  have joined {first : String} {rest : List String} (some : first ≠ "") :
      String.join (first :: rest) ≠ "" := by
    rw [String.join_cons]
    simp [some]
  have spaced {first : String} {rest : List String} (some : first ≠ "") :
      " ".intercalate (first :: rest) ≠ "" := by
    cases rest with
    | nil => simpa using some
    | cons second more =>
      rw [String.intercalate_cons_cons]
      simp [some]
  rcases defined with ⟨own, given, expression, unmarked⟩ | ⟨own, given, expression, unmarked, marks, named⟩
  · next words =>
    obtain ⟨first, rest, rfl⟩ := List.exists_cons_of_ne_nil expression
    have here : String.join (first :: rest) ≠ "" := joined (solid first (by simp [given]))
    exact ⟨here, here⟩
  · next words name mark =>
    obtain ⟨first, rest, rfl⟩ := List.exists_cons_of_ne_nil expression
    obtain ⟨word, more, rfl⟩ := List.exists_cons_of_ne_nil named
    exact ⟨spaced (solid word (by simp [given])), joined (solid first (by simp [given]))⟩

end Directive

end IdlDirectives
