import IdlDirectives.AnnotationSet
import IdlDirectives.Proofs.NameMap
import IdlDirectives.Proofs.Selection.Union
import Mathlib.Data.List.Induction
import Mathlib.Data.List.Nodup

namespace IdlDirectives.AnnotationSet

def bodies (s : AnnotationSet) (flag : String) : List String :=
  (s.unknown.get? flag).getD []

def replacements (s : AnnotationSet) : List String :=
  s.deprecated.getD []

theorem get?_appendBodies (kept more : NameMap (List String)) (flag : String) :
    (appendBodies kept more).get? flag =
      (more.get? flag).elim (kept.get? flag)
        (fun bodies => some ((kept.get? flag).getD [] ++ bodies)) :=
  NameMap.get?_foldl_alter (fun more bodies => bodies.getD [] ++ more) flag more kept

theorem get?_addNames (kept more : NameMap String) (name : String) :
    (addNames kept more).get? name =
      (more.get? name).elim (kept.get? name) (fun value => some ((kept.get? name).getD value)) :=
  NameMap.get?_foldl_alter (fun more value => value.getD more) name more kept

theorem empty_appendBodies (more : NameMap (List String)) : appendBodies ∅ more = more := by
  apply NameMap.ext_get?
  intro flag
  rw [get?_appendBodies]
  cases found : more.get? flag with
  | none => simp
  | some bodies => simp

theorem empty_addNames (more : NameMap String) : addNames ∅ more = more := by
  apply NameMap.ext_get?
  intro name
  rw [get?_addNames]
  cases found : more.get? name with
  | none => simp
  | some value => simp

theorem appendNew_of_nodup {kept names : List String} (distinct : (kept ++ names).Nodup) :
    appendNew kept names = kept ++ names := by
  induction names generalizing kept with
  | nil => simp [appendNew]
  | cons name rest ih =>
    have fresh : name ∉ kept := by
      intro member
      exact (List.nodup_append.mp distinct).2.2 name member name List.mem_cons_self rfl
    have moved : kept ++ name :: rest = (kept ++ [name]) ++ rest := by simp
    rw [moved] at distinct ⊢
    rw [appendNew, if_neg fresh, ih distinct]

theorem nodup_appendNew {kept : List String} (distinct : kept.Nodup) (names : List String) :
    (appendNew kept names).Nodup := by
  induction names generalizing kept with
  | nil => exact distinct
  | cons name rest ih =>
    rw [appendNew]
    split
    · exact ih distinct
    · next fresh =>
      have snoc : (kept ++ [name]).Nodup := by simpa using distinct.concat fresh
      exact ih snoc

theorem appendNew_append (kept names more : List String) :
    appendNew kept (names ++ more) = appendNew (appendNew kept names) more := by
  induction names generalizing kept with
  | nil => rfl
  | cons name rest ih => simp only [List.cons_append, appendNew, ih]

theorem mem_appendNew {name : String} {kept names : List String} :
    name ∈ appendNew kept names ↔ name ∈ kept ∨ name ∈ names := by
  induction names generalizing kept with
  | nil => simp [appendNew]
  | cons first rest ih =>
    rw [appendNew, ih]
    split
    · next known =>
      constructor
      · exact Or.imp_right (List.mem_cons_of_mem first)
      · rintro (own | own)
        · exact .inl own
        · rcases List.mem_cons.mp own with rfl | own
          · exact .inl known
          · exact .inr own
    · simp [or_assoc]

theorem appendNew_assoc (kept names more : List String) :
    appendNew (appendNew kept names) more = appendNew kept (appendNew names more) := by
  induction more generalizing names with
  | nil => rfl
  | cons name rest ih =>
    have here : appendNew kept (if name ∈ names then names else names ++ [name]) =
        if name ∈ appendNew kept names then appendNew kept names else appendNew kept names ++ [name] := by
      by_cases known : name ∈ names
      · rw [if_pos known, if_pos (mem_appendNew.mpr (.inr known))]
      · rw [if_neg known, appendNew_append]
        rfl
    rw [appendNew, appendNew, ← here, ih]

theorem eraseDups_eq_appendNew (names : List String) : names.eraseDups = appendNew [] names := by
  induction names using List.reverseRecOn with
  | nil => rfl
  | append_singleton names name ih =>
    rw [List.eraseDups_append, appendNew_append, ih]
    by_cases known : name ∈ names
    · have member : name ∈ appendNew [] names := mem_appendNew.mpr (.inr known)
      simp [appendNew, List.removeAll, known, member]
    · have fresh : name ∉ appendNew [] names := by simp [mem_appendNew, known]
      simp [appendNew, List.removeAll, known, fresh, List.eraseDups_cons]

theorem appendBodies_alter (kept more : NameMap (List String)) (flag body : String) :
    appendBodies kept (more.alter flag (fun bodies => bodies.getD [] ++ [body])) =
      (appendBodies kept more).alter flag (fun bodies => bodies.getD [] ++ [body]) := by
  apply NameMap.ext_get?
  intro name
  simp only [get?_appendBodies, NameMap.get?_alter]
  by_cases own : name = flag
  · subst own
    cases more.get? name <;> simp
  · simp only [own, if_false]

theorem appendBodies_assoc (kept more further : NameMap (List String)) :
    appendBodies (appendBodies kept more) further = appendBodies kept (appendBodies more further) := by
  apply NameMap.ext_get?
  intro flag
  simp only [get?_appendBodies]
  cases further.get? flag with
  | none => rfl
  | some last =>
    cases more.get? flag with
    | none => rfl
    | some bodies => simp

theorem addNames_assoc (kept more further : NameMap String) :
    addNames (addNames kept more) further = addNames kept (addNames more further) := by
  apply NameMap.ext_get?
  intro name
  simp only [get?_addNames]
  cases further.get? name with
  | none => rfl
  | some last =>
    cases more.get? name with
    | none => rfl
    | some value => rfl

theorem contains_addNames (kept more : NameMap String) (name : String) :
    (addNames kept more).contains name = (kept.contains name || more.contains name) := by
  unfold NameMap.contains
  rw [get?_addNames]
  cases more.get? name <;> simp

theorem addNames_insert {more : NameMap String} {name : String} (fresh : more.contains name = false)
    (kept : NameMap String) (value : String) :
    addNames kept (more.insert name value) =
      if kept.contains name then addNames kept more else (addNames kept more).insert name value := by
  have absent : more.get? name = none := by simpa [NameMap.contains] using fresh
  apply NameMap.ext_get?
  intro other
  rw [get?_addNames, NameMap.get?_insert, NameMap.contains]
  by_cases own : other = name
  · subst own
    cases taken : kept.get? other with
    | none => simp [NameMap.get?_insert]
    | some first => simp [get?_addNames, absent, taken]
  · cases kept.get? name <;> simp [own, NameMap.get?_insert, get?_addNames]

theorem nothing_merge (s : Searchable) : Searchable.nothing.merge s = s := by
  obtain ⟨fields, keys⟩ := s
  simp only [Searchable.merge, Searchable.nothing, Selection.whole_merge]

theorem merge_nothing (s : Searchable) : s.merge .nothing = s := by
  obtain ⟨fields, keys⟩ := s
  simp only [Searchable.merge, Searchable.nothing, Selection.merge_whole]

theorem merge_merge (s t u : Searchable) : (s.merge t).merge u = s.merge (t.merge u) := by
  simp only [Searchable.merge, Selection.merge_assoc]

theorem searchable_merge (s other : AnnotationSet) :
    (s.merge other).searchable.getD .nothing =
      (s.searchable.getD .nothing).merge (other.searchable.getD .nothing) := by
  unfold merge
  cases other.searchable with
  | none => exact (merge_nothing _).symm
  | some more => rfl

theorem merge_empty (s : AnnotationSet) : s.merge ∅ = s := by
  obtain ⟨optional, deprecated, identifier, bounds, searchable, metadata, unknown⟩ := s
  change AnnotationSet.mk _ _ _ _ _ _ _ = _
  congr 1
  cases identifier with
  | none => rfl
  | some first => rfl

theorem empty_merge {s : AnnotationSet} (distinct : s.optional.Nodup) :
    (∅ : AnnotationSet).merge s = s := by
  have names : appendNew [] s.optional = s.optional := appendNew_of_nodup (by simpa using distinct)
  obtain ⟨optional, deprecated, identifier, bounds, searchable, metadata, unknown⟩ := s
  change AnnotationSet.mk _ _ _ _ _ _ _ = _
  congr 1
  · cases deprecated with
    | none => rfl
    | some names => rfl
  · cases bounds with
    | none => rfl
    | some bounds => rfl
  · cases searchable with
    | none => rfl
    | some more => exact congrArg some (nothing_merge more)
  · exact empty_addNames metadata
  · exact empty_appendBodies unknown

theorem merge_assoc (s t u : AnnotationSet) : (s.merge t).merge u = s.merge (t.merge u) := by
  obtain ⟨_, deprecated, identifier, bounds, searchable, _, _⟩ := s
  obtain ⟨_, deprecated', identifier', bounds', searchable', _, _⟩ := t
  obtain ⟨_, deprecated'', _, bounds'', searchable'', _, _⟩ := u
  change AnnotationSet.mk _ _ _ _ _ _ _ = AnnotationSet.mk _ _ _ _ _ _ _
  congr 1
  · exact appendNew_assoc _ _ _
  · cases deprecated'' with
    | none => rfl
    | some last =>
      cases deprecated' with
      | none => rfl
      | some names => exact congrArg some (List.append_assoc _ _ _)
  · cases identifier with
    | none => rfl
    | some first => rfl
  · cases bounds'' with
    | none => rfl
    | some last => rfl
  · cases searchable'' with
    | none => rfl
    | some last =>
      cases searchable' with
      | none => exact congrArg some (congrArg (Searchable.merge _) (nothing_merge last).symm)
      | some more => exact congrArg some (merge_merge _ _ _)
  · exact addNames_assoc _ _ _
  · exact appendBodies_assoc _ _ _

/-- Merging is associative, and merging the empty set changes nothing. A set is left as it is by a merge into
the empty one exactly if it names no optional field twice. -/
theorem merge_monoid :
    (∀ s t u : AnnotationSet, (s.merge t).merge u = s.merge (t.merge u)) ∧
      (∀ s : AnnotationSet, s.merge ∅ = s) ∧
      ∀ s : AnnotationSet, (∅ : AnnotationSet).merge s = s ↔ s.optional.Nodup := by
  refine ⟨merge_assoc, merge_empty, fun s => ⟨fun kept => ?_, empty_merge⟩⟩
  have names : appendNew [] s.optional = s.optional := congrArg AnnotationSet.optional kept
  rw [← names]
  exact nodup_appendNew List.nodup_nil _

theorem replacements_merge (s other : AnnotationSet) :
    (s.merge other).replacements = s.replacements ++ other.replacements := by
  unfold replacements merge
  cases other.deprecated with
  | none => simp
  | some names => rfl

theorem bodies_merge (s other : AnnotationSet) (flag : String) :
    (s.merge other).bodies flag = s.bodies flag ++ other.bodies flag := by
  unfold bodies
  change ((appendBodies s.unknown other.unknown).get? flag).getD [] = _
  rw [get?_appendBodies]
  cases other.unknown.get? flag with
  | none => simp
  | some bodies => rfl

theorem replacements_foldl_merge (sets : List AnnotationSet) (s : AnnotationSet) :
    (sets.foldl merge s).replacements = s.replacements ++ sets.flatMap replacements := by
  induction sets generalizing s with
  | nil => simp
  | cons first rest ih => simp [ih, replacements_merge]

theorem bodies_foldl_merge (sets : List AnnotationSet) (s : AnnotationSet) (flag : String) :
    (sets.foldl merge s).bodies flag = s.bodies flag ++ sets.flatMap (·.bodies flag) := by
  induction sets generalizing s with
  | nil => simp
  | cons first rest ih => simp [ih, bodies_merge]

end IdlDirectives.AnnotationSet
