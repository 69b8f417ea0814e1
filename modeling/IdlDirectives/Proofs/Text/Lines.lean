import IdlDirectives.Proofs.Directive
import IdlDirectives.Selection.Basic

namespace IdlDirectives

namespace Text

def Unbroken (text : String) : Prop :=
  '\n' ∉ text.toList

instance (text : String) : Decidable (Unbroken text) :=
  inferInstanceAs (Decidable (¬ _))

@[simp] theorem unbroken_append {before after : String} :
    Unbroken (before ++ after) ↔ Unbroken before ∧ Unbroken after := by
  simp only [Unbroken, String.toList_append, List.mem_append, not_or]

@[simp] theorem unbroken_repr (n : Nat) : Unbroken n.repr := by
  intro broken
  rw [Nat.toList_repr] at broken
  have digit := Nat.isDigit_of_mem_toDigits (by decide) (by decide) broken
  cases digit

theorem unbroken_join {texts : List String} (each : ∀ text ∈ texts, Unbroken text) :
    Unbroken (String.join texts) := by
  intro broken
  rw [String.toList_join] at broken
  obtain ⟨text, member, broken⟩ := List.mem_flatMap.mp broken
  exact each text member broken

theorem unbroken_intercalate {between : String} (plain : Unbroken between) {texts : List String}
    (each : ∀ text ∈ texts, Unbroken text) : Unbroken (between.intercalate texts) := by
  induction texts with
  | nil => exact List.not_mem_nil
  | cons first rest ih =>
    obtain ⟨here, later⟩ := List.forall_mem_cons.mp each
    by_cases last : rest = []
    · rw [last, String.intercalate_singleton]
      exact here
    · rw [String.intercalate_cons_of_ne_nil last, unbroken_append, unbroken_append]
      exact ⟨⟨here, plain⟩, ih later⟩

theorem lines_ended {texts : List String} (each : ∀ text ∈ texts, Unbroken text) :
    lines (String.join (texts.map (· ++ "\n"))).toList = texts.map (·.toList) ++ [[]] := by
  induction texts with
  | nil => rfl
  | cons first rest ih =>
    obtain ⟨here, later⟩ := List.forall_mem_cons.mp each
    have cut : (String.join ((first :: rest).map (· ++ "\n"))).toList =
        first.toList ++ '\n' :: (String.join (rest.map (· ++ "\n"))).toList := by
      simp [String.toList_append]
    rw [cut, lines_append_cons, lines_eq_singleton here, ih later]
    rfl

-- a line feed is a blank, so no word has one
theorem unbroken_of_solid {text : String} (solid : ∀ c ∈ text.toList, isBlank c = false) : Unbroken text := by
  intro broken
  have plain := solid '\n' broken
  cases plain

end Text

open Text

theorem dotted_unbroken {path : List String} (each : ∀ selector ∈ path, Unbroken selector) :
    Unbroken (dotted path) := by
  have begun : Unbroken "" := by decide
  unfold dotted
  generalize "" = text at begun
  induction path generalizing text with
  | nil => exact begun
  | cons selector path ih =>
    obtain ⟨here, later⟩ := List.forall_mem_cons.mp each
    refine ih later _ ?_
    dsimp only
    split
    · exact here
    · rw [unbroken_append, unbroken_append]
      exact ⟨⟨begun, by decide⟩, here⟩

namespace Directive

theorem params_unbroken (d : Directive) : ∀ param ∈ d.params, Unbroken param := by
  intro param given
  obtain ⟨word, member, rfl⟩ := List.mem_map.mp given
  refine unbroken_of_solid ?_
  rw [String.toList_ofList]
  exact not_separator_of_mem (List.mem_filter.mp member).1

theorem flag_unbroken {d : Directive} {comment : String} (scanned : d ∈ scan comment) : Unbroken d.flag :=
  unbroken_of_solid (scan_settled scanned).1.solid

end Directive

end IdlDirectives
