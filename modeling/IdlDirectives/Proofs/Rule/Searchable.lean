import IdlDirectives.Proofs.Directive
import IdlDirectives.Proofs.Expression.Language
import IdlDirectives.Rule.Catalogue

namespace IdlDirectives

theorem Directive.params_pair {flag first second : List Char} (named : first ≠ [])
    (solid : ∀ c ∈ first, Text.isBlank c = false) (named' : second ≠ [])
    (solid' : ∀ c ∈ second, Text.isBlank c = false) :
    params ⟨String.ofList flag, String.ofList (first ++ ' ' :: second)⟩ =
      [String.ofList first, String.ofList second] := by
  have blank : Text.isBlank ' ' = true := by decide
  rw [params, String.toList_ofList, Text.words_append_cons blank, Text.words_eq_singleton named solid,
    Text.words_eq_singleton named' solid']
  rfl

theorem Directive.trimEnd_pair {second : List Char} (first : List Char) (named : second ≠ [])
    (solid : ∀ c ∈ second, Text.isBlank c = false) :
    Text.trimEnd (first ++ ' ' :: second) = first ++ ' ' :: second := by
  rw [List.append_cons, Text.trimEnd_append, Text.trimEnd_solid solid, if_neg named]

theorem Rule.addPaths_fields {items : Expression.Items}
    (fields : List.isPrefixOf? "keys_of(".toList items.text = none) {path : List String}
    (denoted : items.Denotes [] path) :
    (addPaths .nothing [String.ofList items.text]).fields.Contains path := by
  have unwrapped : Expression.unwrapKeys (String.ofList items.text) =
      (String.ofList items.text, false) := by
    unfold Expression.unwrapKeys
    rw [String.toList_ofList (l := items.text), fields]
  obtain ⟨s, parsed, contains⟩ := Expression.parse_text items
  have read : SearchPath.parse (String.ofList items.text) = .ok ⟨s, false⟩ := by
    simp only [SearchPath.parse, unwrapped, parsed]
  have added : addPaths .nothing [String.ofList items.text] = Searchable.add .nothing ⟨s, false⟩ := by
    simp only [addPaths, List.filterMap_cons, read]
    rfl
  rw [added]
  exact Selection.contains_merge.mpr (.inr ((contains path).mpr (.inr denoted)))

theorem Rule.searchable_applyComment {g : TypeGraph} {id : TypeId} {resolved : Resolved}
    (target : requireStruct g id = .ok resolved) {path : List Char} (named : path ≠ [])
    (solid : ∀ c ∈ path, Text.isBlank c = false) :
    (applyComment (forTypedef g id)
        (String.ofList ('@' :: "searchable".toList ++ ' ' :: ("ws_subset".toList ++ ' ' :: path)))
      ).1.searchable = some (addPaths .nothing [String.ofList path]) := by
  have flag : ∀ c ∈ "searchable".toList, Text.isBlank c = false := by simp [Text.isBlank]
  have context : ∀ c ∈ "ws_subset".toList, Text.isBlank c = false := by simp [Text.isBlank]
  have scanned : Directive.scan
        (String.ofList ('@' :: "searchable".toList ++ ' ' :: ("ws_subset".toList ++ ' ' :: path))) =
      [⟨String.ofList "searchable".toList, String.ofList ("ws_subset".toList ++ ' ' :: path)⟩] := by
    have unbroken : '\n' ∉ "ws_subset".toList ++ ' ' :: path := by
      intro member
      rcases List.mem_append.mp member with own | own
      · cases context _ own
      · rcases List.mem_cons.mp own with space | own
        · cases space
        · cases solid _ own
    exact Directive.scan_line (by decide) flag (Text.trimStart_cons (by decide) _)
      (Directive.trimEnd_pair _ named solid) unbroken
  have rule : (forTypedef g id).find? (·.flag = String.ofList "searchable".toList) =
      some (searchable g id) := rfl
  rw [applyComment, scanned, applyAll, applyAll, applyOne, rule]
  simp only [Directive.params_pair (by decide : "ws_subset".toList ≠ []) context named solid,
    searchable, target]
  rfl

end IdlDirectives
