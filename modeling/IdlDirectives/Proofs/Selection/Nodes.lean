import IdlDirectives.Selection.Basic

namespace IdlDirectives

namespace Branches

theorem child?_isSome {t : Branches} {selector : String} :
    (t.child? selector).isSome = true ↔ selector ∈ t.selectors := by
  induction t with
  | none => simp [child?, selectors]
  | branch first below others _ ih =>
    simp only [child?, selectors, List.mem_cons]
    split
    · next same => simp [same]
    · next different => simp [ih, Ne.symm different]

theorem child?_eq_none_of_before {t : Branches} {selector : String}
    (before : ∀ later ∈ t.selectors, selector < later) : t.child? selector = Option.none := by
  rw [← Option.not_isSome_iff_eq_none, child?_isSome]
  intro member
  exact Std.lt_irrefl (before selector member)

theorem child?_adjust {selector name : String} {f : Branches → Branches} {t : Branches}
    (h : t.Ordered) :
    (t.adjust selector f).child? name =
      if name = selector then some (f ((t.child? selector).getD .none)) else t.child? name := by
  induction t with
  | none => simp [adjust, child?, eq_comm]
  | branch first below others _ ih =>
    obtain ⟨bound, _, rest⟩ := h
    simp only [adjust]
    split
    · next before =>
      have absent : (Branches.branch first below others).child? selector = Option.none := by
        apply child?_eq_none_of_before
        intro later member
        rcases List.mem_cons.mp member with rfl | member
        · exact before
        · exact String.lt_trans before (bound later member)
      rw [absent, child?]
      simp only [eq_comm, Option.getD_none]
    · split
      · next same => subst same; simp only [child?, if_true, Option.getD_some, eq_comm]; split <;> rfl
      · next different =>
        simp only [child?, ih rest, Ne.symm different, if_false]
        by_cases found : first = name
        · subst found; simp [Ne.symm different]
        · simp [found]

theorem at?_adjust {selector name : String} {path : List String} {f : Branches → Branches}
    {t : Branches} (h : t.Ordered) :
    (t.adjust selector f).at? (name :: path) =
      if name = selector then (f ((t.child? selector).getD .none)).at? path
      else t.at? (name :: path) := by
  simp only [at?, child?_adjust h]
  split <;> rfl

theorem at?_append {t : Branches} {path more : List String} :
    t.at? (path ++ more) = (t.at? path).bind (at? more) := by
  induction path generalizing t with
  | nil => rfl
  | cons selector path ih =>
    simp only [List.cons_append, at?, Option.bind_assoc]
    congr 1
    funext below
    exact ih

theorem isSome_at?_cons {t : Branches} {selector : String} {path : List String} :
    (t.at? (selector :: path)).isSome = true ↔
      ∃ below, t.child? selector = some below ∧ (below.at? path).isSome = true := by
  simp [at?, Option.isSome_bind, Option.any_eq_true]

theorem isSome_at?_child_getD {t : Branches} {selector : String} {path : List String} :
    (((t.child? selector).getD .none).at? path).isSome = true ↔
      path = [] ∨ (t.at? (selector :: path)).isSome = true := by
  cases path with
  | nil => simp [at?]
  | cons name path => cases found : t.child? selector <;> simp [at?, child?, found]

theorem isSome_at?_insert {path : List String} {t : Branches} {other : List String} (h : t.Ordered) :
    ((t.insert path).at? other).isSome = true ↔ (t.at? other).isSome = true ∨ other <+: path := by
  induction path generalizing t other with
  | nil => cases other <;> simp [insert, at?]
  | cons selector path ih =>
    cases other with
    | nil => simp [at?]
    | cons name other =>
      have inner : ((t.child? selector).getD .none).Ordered := by
        cases found : t.child? selector with
        | none => trivial
        | some below => exact ordered_of_child? h found
      rw [insert, at?_adjust h]
      split
      · next same =>
        subst same
        rw [ih inner, isSome_at?_child_getD, List.cons_prefix_cons]
        constructor
        · rintro ((rfl | there) | inserted)
          · exact .inr ⟨rfl, List.nil_prefix⟩
          · exact .inl there
          · exact .inr ⟨rfl, inserted⟩
        · rintro (there | ⟨-, inserted⟩)
          · exact .inl (.inr there)
          · exact .inr inserted
      · next different => simp [List.cons_prefix_cons, different]

theorem isSome_at?_merge {t other : Branches} {path : List String} (h : t.Ordered)
    (h' : other.Ordered) :
    ((t.merge other).at? path).isSome = true ↔
      (t.at? path).isSome = true ∨ (other.at? path).isSome = true := by
  induction other generalizing t path with
  | none => cases path <;> simp [merge, at?, child?]
  | branch selector below others inner outer =>
    obtain ⟨bound, ordered, rest⟩ := h'
    have keeps : ∀ mine : Branches, mine.Ordered → (mine.merge below).Ordered :=
      fun _ mine => ordered_merge mine ordered
    rw [merge, outer (ordered_adjust keeps h) rest]
    cases path with
    | nil => simp [at?]
    | cons name path =>
      rw [at?_adjust h]
      split
      · next same =>
        subst same
        have mine : ((t.child? name).getD .none).Ordered := by
          cases found : t.child? name with
          | none => trivial
          | some below => exact ordered_of_child? h found
        rw [inner mine ordered, isSome_at?_child_getD]
        have absent : others.child? name = Option.none := child?_eq_none_of_before bound
        simp only [at?, child?, absent, if_true, Option.bind_none, Option.bind_some,
          Option.isSome_none, Bool.false_eq_true, or_false]
        constructor
        · rintro ((rfl | there) | there)
          · exact .inr rfl
          · exact .inl there
          · exact .inr there
        · rintro (there | there)
          · exact .inl (.inr there)
          · exact .inr there
      · next different => simp only [at?, child?, Ne.symm different, if_false]

theorem eq_of_nodes {t other : Branches} (h : t.Ordered) (h' : other.Ordered)
    (same : ∀ path, (t.at? path).isSome = true ↔ (other.at? path).isSome = true) : t = other := by
  induction t generalizing other with
  | none =>
    cases other with
    | none => rfl
    | branch first below others =>
      have := (same [first]).mpr (by simp [at?, child?])
      simp [at?, child?] at this
  | branch first below others inner outer =>
    cases other with
    | none =>
      have := (same [first]).mp (by simp [at?, child?])
      simp [at?, child?] at this
    | branch first' below' others' =>
      have selects : ∀ name, name ∈ first :: others.selectors ↔ name ∈ first' :: others'.selectors := by
        intro name
        have := same [name]
        rw [isSome_at?_cons, isSome_at?_cons] at this
        simpa [at?, ← Option.isSome_iff_exists, child?_isSome, selectors] using this
      -- each of the first selectors is the least of the same set
      have head : first = first' := by
        rcases List.mem_cons.mp ((selects first).mp List.mem_cons_self) with equal | after
        · exact equal
        · rcases List.mem_cons.mp ((selects first').mpr List.mem_cons_self) with equal | after'
          · exact equal.symm
          · exact absurd (String.lt_trans (h.1 _ after') (h'.1 _ after)) Std.lt_irrefl
      subst head
      have hereBelow : below = below' := by
        apply inner h.2.1 h'.2.1
        intro path
        simpa [at?, child?] using same (first :: path)
      have hereOthers : others = others' := by
        apply outer h.2.2 h'.2.2
        intro path
        cases path with
        | nil => simp [at?]
        | cons name path =>
          by_cases equal : first = name
          · subst equal
            simp [at?, child?_eq_none_of_before h.1, child?_eq_none_of_before h'.1]
          · simpa [at?, child?, equal] using same (name :: path)
      rw [hereBelow, hereOthers]

end Branches

namespace Selection

theorem contains_nil (s : Selection) : s.Contains [] := rfl

theorem contains_insert {s : Selection} {path other : List String} :
    (s.insert path).Contains other ↔ s.Contains other ∨ other <+: path :=
  Branches.isSome_at?_insert s.ordered

theorem contains_merge {s other : Selection} {path : List String} :
    (s.merge other).Contains path ↔ s.Contains path ∨ other.Contains path :=
  Branches.isSome_at?_merge s.ordered other.ordered

theorem contains_whole {path : List String} : whole.Contains path ↔ path = [] := by
  cases path <;> simp [Contains, whole, Branches.at?, Branches.child?]

theorem Contains.of_prefix {s : Selection} {path more : List String}
    (h : s.Contains (path ++ more)) : s.Contains path := by
  simp only [Contains, Branches.at?_append, Option.isSome_bind] at h
  cases found : s.branches.at? path with
  | none => simp [found] at h
  | some below => simp [Contains, found]

theorem ext_of_contains {s other : Selection}
    (same : ∀ path, s.Contains path ↔ other.Contains path) : s = other := by
  obtain ⟨branches, ordered⟩ := s
  obtain ⟨branches', ordered'⟩ := other
  obtain rfl := Branches.eq_of_nodes ordered ordered' same
  rfl

theorem whole_merge (s : Selection) : whole.merge s = s := by
  apply ext_of_contains
  intro path
  rw [contains_merge, contains_whole]
  constructor
  · rintro (rfl | there)
    · exact s.contains_nil
    · exact there
  · exact .inr

end Selection

end IdlDirectives
