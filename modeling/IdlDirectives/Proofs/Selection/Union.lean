import IdlDirectives.Proofs.Selection.Nodes

namespace IdlDirectives.Selection

theorem merge_comm (s t : Selection) : s.merge t = t.merge s := by
  apply ext_of_contains
  intro path
  rw [contains_merge, contains_merge, or_comm]

theorem merge_assoc (s t u : Selection) : (s.merge t).merge u = s.merge (t.merge u) := by
  apply ext_of_contains
  intro path
  simp only [contains_merge, or_assoc]

theorem merge_self (s : Selection) : s.merge s = s := by
  apply ext_of_contains
  intro path
  rw [contains_merge, or_self]

theorem merge_whole (s : Selection) : s.merge whole = s :=
  (merge_comm s whole).trans s.whole_merge

end IdlDirectives.Selection
