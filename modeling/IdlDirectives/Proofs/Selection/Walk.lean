import IdlDirectives.Proofs.Selection.Nodes

namespace IdlDirectives

def Branches.walk : Branches → List (List String)
  | .none => []
  | .branch selector below others => ([] :: below.walk).map (selector :: ·) ++ others.walk

def Selection.walk (s : Selection) : List (List String) :=
  [] :: s.branches.walk

namespace Branches

theorem nil_not_mem_walk {t : Branches} : [] ∉ t.walk := by
  induction t with
  | none => simp [walk]
  | branch selector below others _ ih => simp [walk, ih]

theorem mem_selectors_of_mem_walk {t : Branches} {selector : String} {path : List String}
    (member : selector :: path ∈ t.walk) : selector ∈ t.selectors := by
  induction t with
  | none => simp [walk] at member
  | branch first below others _ ih =>
    simp only [walk, List.mem_append, List.mem_map, List.cons.injEq] at member
    rcases member with ⟨_, _, same, _⟩ | member
    · exact same ▸ List.mem_cons_self
    · exact List.mem_cons_of_mem _ (ih member)

theorem mem_walk {t : Branches} {path : List String} (h : t.Ordered) :
    path ∈ t.walk ↔ path ≠ [] ∧ (t.at? path).isSome = true := by
  induction t generalizing path with
  | none => cases path <;> simp [walk, at?, child?]
  | branch first below others inner outer =>
    cases path with
    | nil => simp [nil_not_mem_walk]
    | cons selector path =>
      have here : selector :: path ∈ ([] :: below.walk).map (first :: ·) ↔
          first = selector ∧ (below.at? path).isSome = true := by
        simp only [List.mem_map, List.mem_cons, List.cons.injEq, inner h.2.1]
        constructor
        · rintro ⟨_, rfl | ⟨-, there⟩, same, rfl⟩
          · exact ⟨same, rfl⟩
          · exact ⟨same, there⟩
        · rintro ⟨same, there⟩
          cases path with
          | nil => exact ⟨[], .inl rfl, same, rfl⟩
          | cons name path => exact ⟨name :: path, .inr ⟨by simp, there⟩, same, rfl⟩
      rw [walk, List.mem_append, here, outer h.2.2]
      by_cases same : first = selector
      · subst same
        have absent : others.child? first = Option.none := child?_eq_none_of_before h.1
        simp [at?, child?, absent]
      · simp [at?, child?, same]

theorem walk_sorted {t : Branches} (h : t.Ordered) : t.walk.Pairwise (· < ·) := by
  induction t with
  | none => exact .nil
  | branch first below others inner outer =>
    rw [walk, List.pairwise_append]
    refine ⟨?_, outer h.2.2, ?_⟩
    · rw [List.pairwise_map]
      have deeper : ([] :: below.walk).Pairwise (· < ·) := by
        refine List.pairwise_cons.mpr ⟨?_, inner h.2.1⟩
        intro path member
        cases path with
        | nil => exact absurd member nil_not_mem_walk
        | cons name path => exact List.nil_lt_cons _ _
      exact deeper.imp (fun less => List.cons_lt_cons_self.mpr less)
    · intro early member late member'
      obtain ⟨path, -, rfl⟩ := List.mem_map.mp member
      cases late with
      | nil => exact absurd member' nil_not_mem_walk
      | cons name path' =>
        exact List.cons_lt_cons_iff.mpr (.inl (h.1 name (mem_selectors_of_mem_walk member')))

end Branches

namespace Selection

theorem mem_walk {s : Selection} {path : List String} : path ∈ s.walk ↔ s.Contains path := by
  rw [walk, List.mem_cons, Branches.mem_walk s.ordered]
  constructor
  · rintro (rfl | ⟨-, there⟩)
    · exact s.contains_nil
    · exact there
  · intro there
    by_cases root : path = []
    · exact .inl root
    · exact .inr ⟨root, there⟩

theorem walk_sorted (s : Selection) : s.walk.Pairwise (· < ·) := by
  refine List.pairwise_cons.mpr ⟨?_, Branches.walk_sorted s.ordered⟩
  intro path member
  cases path with
  | nil => exact absurd member Branches.nil_not_mem_walk
  | cons name path => exact List.nil_lt_cons _ _

end Selection

end IdlDirectives
