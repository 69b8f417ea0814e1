import IdlDirectives.Proofs.Expression.Errors
import Mathlib.Data.List.Basic

namespace IdlDirectives.Expression

def IsWrapped (param : String) : Prop :=
  ∃ inner, param = "keys_of(" ++ inner ++ ")"

theorem toList_wrapped (inner : String) :
    ("keys_of(" ++ inner ++ ")").toList = "keys_of(".toList ++ (inner.toList ++ [')']) := by
  simp [String.toList_append]

theorem unwrapKeys_wrapped (inner : String) :
    unwrapKeys ("keys_of(" ++ inner ++ ")") = (inner, true) := by
  have cut : List.isPrefixOf? "keys_of(".toList ("keys_of(" ++ inner ++ ")").toList =
      some (inner.toList ++ [')']) := by
    rw [List.isPrefixOf?_eq_some_iff_append_eq, toList_wrapped]
  simp only [unwrapKeys, cut, List.getLast?_concat, if_true, List.dropLast_concat, String.ofList_toList]

theorem unwrapKeys_plain {param : String} (plain : ¬ IsWrapped param) :
    unwrapKeys param = (param, false) := by
  unfold unwrapKeys
  cases cut : List.isPrefixOf? "keys_of(".toList param.toList with
  | none => rfl
  | some inner =>
    rw [List.isPrefixOf?_eq_some_iff_append_eq] at cut
    refine if_neg (fun closed => plain ?_)
    obtain ⟨front, rfl⟩ := List.getLast?_eq_some_iff.mp closed
    refine ⟨String.ofList front, String.toList_inj.mp ?_⟩
    simp [← cut]

theorem unwrapKeys_subset (param : String) : (unwrapKeys param).1.toList ⊆ param.toList := by
  by_cases wrapped : IsWrapped param
  · obtain ⟨inner, rfl⟩ := wrapped
    rw [unwrapKeys_wrapped, toList_wrapped]
    exact List.Subset.trans (List.subset_append_left _ _) (List.subset_append_right _ _)
  · rw [unwrapKeys_plain wrapped]
    exact List.Subset.refl _

theorem not_isWrapped_of_readable {expression : String} (readable : Readable expression) :
    ¬ IsWrapped expression := by
  rintro ⟨inner, rfl⟩
  obtain ⟨s, parsed⟩ := readable
  obtain ⟨r, ran, -⟩ := parse_eq_ok.mp parsed
  rw [String.append_assoc, String.toList_append] at ran
  obtain ⟨middle, begun, -⟩ := Reader.run_append.mp ran
  have refused : Reader.start.run 0 "keys_of(".toList = .error (.illegalOpen 7) := rfl
  rw [refused] at begun
  cases begun

/-- How many characters of a parameter stand before its expression. -/
def lead (param : String) : Nat :=
  if (unwrapKeys param).2 then 8 else 0

theorem lead_wrapped (inner : String) : lead ("keys_of(" ++ inner ++ ")") = 8 := by
  rw [lead, unwrapKeys_wrapped]
  rfl

theorem lead_plain {param : String} (plain : ¬ IsWrapped param) : lead param = 0 := by
  rw [lead, unwrapKeys_plain plain]
  rfl

theorem getElem?_wrapper (inner : String) {position : Nat} (before : position < 7) :
    ("keys_of(" ++ inner ++ ")").toList[position]? = "keys_of".toList[position]? := by
  have text : ("keys_of(" ++ inner ++ ")").toList = "keys_of".toList ++ '(' :: (inner.toList ++ [')']) :=
    toList_wrapped inner
  rw [text, List.getElem?_append_left before]

theorem getElem?_wrapped {inner : String} {position : Nat} (inside : position < inner.toList.length) :
    ("keys_of(" ++ inner ++ ")").toList[position + 8]? = inner.toList[position]? := by
  have behind : position + 8 - "keys_of(".toList.length = position := Nat.add_sub_cancel position 8
  rw [toList_wrapped, List.getElem?_append_right (Nat.le_add_left 8 position), behind,
    List.getElem?_append_left inside]

theorem getElem?_lead {param : String} {position : Nat} {c : Char}
    (there : (unwrapKeys param).1.toList[position]? = some c) :
    param.toList[position + lead param]? = some c := by
  by_cases wrapped : IsWrapped param
  · obtain ⟨inner, rfl⟩ := wrapped
    rw [unwrapKeys_wrapped] at there
    rw [lead_wrapped, getElem?_wrapped (List.getElem?_eq_some_iff.mp there).1]
    exact there
  · rw [unwrapKeys_plain wrapped] at there
    rw [lead_plain wrapped]
    exact there

end IdlDirectives.Expression
