import IdlDirectives.Proofs.Rule.Comments

namespace IdlDirectives

namespace Searchable

theorem merge_add (s t : Searchable) (path : SearchPath) : (s.merge t).add path = s.merge (t.add path) := by
  obtain ⟨selection, ofKeys⟩ := path
  cases ofKeys <;> simp [add, merge, Selection.merge_assoc]

theorem merge_addPaths (s t : Searchable) (params : List String) :
    Rule.addPaths (s.merge t) params = s.merge (Rule.addPaths t params) := by
  unfold Rule.addPaths
  generalize params.filterMap (fun param => (SearchPath.parse param).toOption) = paths
  induction paths generalizing t with
  | nil => rfl
  | cons path rest ih => rw [List.foldl_cons, List.foldl_cons, merge_add, ih]

end Searchable

namespace AnnotationSet

def settled (s : AnnotationSet) : AnnotationSet :=
  { s with deprecated := s.deprecated.map List.eraseDups }

theorem replacements_settled (s : AnnotationSet) : s.settled.replacements = s.replacements.eraseDups := by
  unfold replacements settled
  cases s.deprecated with
  | none => rfl
  | some names => rfl

theorem settled_of_nodup {s : AnnotationSet} (distinct : s.replacements.Nodup) : s.settled = s := by
  have once : s.deprecated.map List.eraseDups = s.deprecated := by
    unfold replacements at distinct
    cases replaced : s.deprecated with
    | none => rfl
    | some names =>
      rw [replaced] at distinct
      rw [Option.map_some, eraseDups_eq_appendNew, appendNew_of_nodup (by simpa using distinct)]
      rfl
  rw [settled, once]

theorem addUnknown_merge (s t : AnnotationSet) (flag body : String) :
    (s.merge t).addUnknown flag body = s.merge (t.addUnknown flag body) := by
  simp only [addUnknown, merge, appendBodies_alter]

theorem addUnknown_settled (s : AnnotationSet) (flag body : String) :
    s.settled.addUnknown flag body = (s.addUnknown flag body).settled :=
  rfl

end AnnotationSet

namespace Rule

theorem keepNames_filter {objection? further? : List String → String → Option Rejection}
    {allowed : String → Bool}
    (clear : ∀ kept name,
      objection? kept name = none ↔ allowed name = true ∧ further? kept name = none)
    (kept names : List String) :
    (keepNames objection? kept names).1 = (keepNames further? kept (names.filter allowed)).1 := by
  induction names generalizing kept with
  | nil => rfl
  | cons name rest ih =>
    by_cases valid : allowed name = true
    · have same : objection? kept name = none ↔ further? kept name = none := by simp [clear, valid]
      rw [List.filter_cons_of_pos valid, keepNames, keepNames]
      cases objected : further? kept name with
      | none =>
        rw [same.mpr objected]
        exact ih (kept ++ [name])
      | some reason =>
        obtain ⟨reason', refused⟩ := Option.ne_none_iff_exists'.mp (mt same.mp (by simp [objected]))
        rw [refused]
        exact ih kept
    · obtain ⟨reason, refused⟩ :=
        Option.ne_none_iff_exists'.mp (fun objected => valid ((clear kept name).mp objected).1)
      rw [List.filter_cons_of_neg valid, keepNames, refused]
      exact ih kept

theorem keepNames_repeated (kept names : List String) :
    (keepNames repeated? kept names).1 = AnnotationSet.appendNew kept names := by
  induction names generalizing kept with
  | nil => rfl
  | cons name rest ih =>
    by_cases known : name ∈ kept
    · simp only [keepNames, repeated?, AnnotationSet.appendNew, known, if_true, ih]
    · simp only [keepNames, repeated?, AnnotationSet.appendNew, known, if_false, ih]

theorem keepNames_all (kept names : List String) :
    (keepNames (fun _ _ => none) kept names).1 = kept ++ names := by
  induction names generalizing kept with
  | nil => simp [keepNames]
  | cons name rest ih => simp [keepNames, ih]

theorem unqualified?_eq_none {referent : Referent} {name : String} :
    unqualified? referent name = none ↔ isQualified name = true := by
  unfold unqualified?
  split <;> simp_all

theorem keepNames_fields (type : BaseType) (kept names : List String) :
    (keepNames (fun kept name =>
        if (type.field? name).isNone then some (.unknownField name) else repeated? kept name) kept names).1 =
      AnnotationSet.appendNew kept (names.filter (fun name => (type.field? name).isSome)) := by
  rw [← keepNames_repeated]
  apply keepNames_filter
  intro kept name
  cases type.field? name <;> simp

theorem keepNames_qualified (referent : Referent) (kept names : List String) :
    (keepNames (fun _ name => unqualified? referent name) kept names).1 =
      kept ++ names.filter isQualified := by
  rw [← keepNames_all]
  apply keepNames_filter
  intro kept name
  simp [unqualified?_eq_none]

theorem keepNames_qualified_new (referent : Referent) (kept names : List String) :
    (keepNames (fun kept name => unqualified? referent name <|> repeated? kept name) kept names).1 =
      AnnotationSet.appendNew kept (names.filter isQualified) := by
  rw [← keepNames_repeated]
  apply keepNames_filter
  intro kept name
  simp [unqualified?_eq_none]

/-- What a rule does to a merged set is what it does to the set that was merged in. The sets of some kinds
of declarations are settled further after merging. -/
def Extends (settle : AnnotationSet → AnnotationSet) (rule : Rule) : Prop :=
  ∀ (params : List String) (s t : AnnotationSet),
    (rule.apply params (settle (s.merge t))).annotations =
      settle (s.merge (rule.apply params t).annotations)

theorem applyAll_merge {settle : AnnotationSet → AnnotationSet} {rules : List Rule}
    (each : ∀ rule ∈ rules, rule.Extends settle)
    (filed : ∀ (s t : AnnotationSet) (flag body : String),
      (settle (s.merge t)).addUnknown flag body = settle (s.merge (t.addUnknown flag body)))
    (ds : List Directive) (s t : AnnotationSet) :
    (applyAll rules (settle (s.merge t)) ds).1 = settle (s.merge (applyAll rules t ds).1) := by
  induction ds generalizing t with
  | nil => rfl
  | cons d rest ih =>
    have here : (applyOne rules d (settle (s.merge t))).annotations =
        settle (s.merge (applyOne rules d t).annotations) := by
      unfold applyOne
      cases found : rules.find? (·.flag = d.flag) with
      | none => exact filed s t d.flag d.body
      | some rule => exact each rule (List.mem_of_find?_eq_some found) d.params s t
    simp only [applyAll, here, ih]

variable (g : TypeGraph) (id : TypeId)

theorem optional_extends : (optional g id).Extends .settled := by
  intro params s t
  simp only [optional]
  cases requireStruct g id with
  | error reason => rfl
  | ok resolved =>
    dsimp only
    split
    · rfl
    · simp only [keepNames_fields, AnnotationSet.settled, AnnotationSet.merge, AnnotationSet.appendNew_assoc]

theorem deprecatedFunction_annotations (params : List String) (s : AnnotationSet) :
    (deprecatedFunction.apply params s).annotations =
      { s with deprecated := some (s.replacements ++ params.filter isQualified) } := by
  simp only [deprecatedFunction, keepNames_qualified, AnnotationSet.replacements]

theorem deprecatedFunction_extends : deprecatedFunction.Extends (fun s => s) := by
  intro params s t
  rw [deprecatedFunction_annotations, deprecatedFunction_annotations, AnnotationSet.replacements_merge,
    List.append_assoc]
  rfl

theorem deprecatedType_annotations (params : List String) (s : AnnotationSet) :
    (deprecatedType.apply params s).annotations =
      { s with
        deprecated := some (AnnotationSet.appendNew s.replacements (params.filter isQualified)) } := by
  simp only [deprecatedType, keepNames_qualified_new, AnnotationSet.replacements]

theorem deprecatedType_extends : deprecatedType.Extends .settled := by
  intro params s t
  have moved (names : List String) :
      AnnotationSet.appendNew (s.replacements ++ t.replacements).eraseDups names =
        (s.replacements ++ AnnotationSet.appendNew t.replacements names).eraseDups := by
    simp only [AnnotationSet.eraseDups_eq_appendNew, AnnotationSet.appendNew_append,
      AnnotationSet.appendNew_assoc]
  rw [deprecatedType_annotations, deprecatedType_annotations, AnnotationSet.replacements_settled,
    AnnotationSet.replacements_merge, moved]
  rfl

theorem identifier_extends : (identifier g id).Extends .settled := by
  intro params s t
  simp only [identifier]
  cases g.resolve id with
  | error cause => rfl
  | ok resolved =>
    dsimp only
    split
    · rfl
    · obtain ⟨_, _, first, _, _, _, _⟩ := s
      obtain ⟨_, _, second, _, _, _, _⟩ := t
      cases first <;> cases second <;> cases params <;> rfl

theorem bounds_extends : (bounds g id).Extends .settled := by
  intro params s t
  simp only [bounds]
  cases g.resolve id with
  | error cause => rfl
  | ok resolved =>
    dsimp only
    split
    · rfl
    · cases Bounds.parse (String.join params) with
      | error reason => rfl
      | ok bounds => rfl

theorem searchable_extends : (searchable g id).Extends .settled := by
  intro params s t
  simp only [searchable]
  cases requireStruct g id with
  | error reason => rfl
  | ok resolved =>
    cases params with
    | nil => rfl
    | cons context paths =>
      dsimp only
      split
      · rfl
      · have added : addPaths ((s.merge t).searchable.getD .nothing) paths =
            (s.searchable.getD .nothing).merge (addPaths (t.searchable.getD .nothing) paths) := by
          rw [AnnotationSet.searchable_merge, Searchable.merge_addPaths]
        simp only [AnnotationSet.settled, added]
        rfl

theorem metadata_extends : (metadata g id).Extends .settled := by
  intro params s t
  simp only [metadata]
  cases requireStruct g id with
  | error reason => rfl
  | ok resolved =>
    rcases params with _ | ⟨context, _ | ⟨first, rest⟩⟩
    · rfl
    · dsimp only
      split
      · rfl
      · rfl
    · dsimp only
      split
      · rfl
      · cases MetadataEntry.ofWords first rest with
        | error reason => rfl
        | ok entry =>
          dsimp only
          have merged : (s.merge t).settled.metadata = AnnotationSet.addNames s.metadata t.metadata := rfl
          rw [merged, AnnotationSet.contains_addNames]
          -- a name that only the first set has is refused after merging, and lost in merging otherwise
          by_cases taken : t.metadata.contains entry.name = true
          · simp only [taken, Bool.or_true, if_true]
            rfl
          · have fresh : t.metadata.contains entry.name = false := Bool.eq_false_iff.mpr taken
            have inserted := AnnotationSet.addNames_insert fresh s.metadata entry.expression
            simp only [fresh, Bool.or_false, Bool.false_eq_true, if_false]
            split
            · next earlier =>
              rw [if_pos earlier] at inserted
              simp only [Outcome.reject, AnnotationSet.settled, AnnotationSet.merge, inserted]
            · next later =>
              rw [if_neg later] at inserted
              simp only [AnnotationSet.settled, AnnotationSet.merge, inserted]

theorem forTypedef_extends {rule : Rule} (member : rule ∈ forTypedef g id) : rule.Extends .settled := by
  rcases mem_forTypedef member with rfl | rfl | rfl | rfl | rfl | rfl
  · exact optional_extends g id
  · exact deprecatedType_extends
  · exact identifier_extends g id
  · exact bounds_extends g id
  · exact searchable_extends g id
  · exact metadata_extends g id

theorem forFunction_extends {rule : Rule} (member : rule ∈ forFunction) :
    rule.Extends (fun s => s) := by
  rw [List.mem_singleton.mp member]
  exact deprecatedFunction_extends

/-- A list of directives can be applied in pieces and what they leave be merged. Merging repeats the
replacements of a type that the pieces have in common, and they have to be taken out. -/
theorem applyAll_in_pieces (ds ds' : List Directive) :
    (applyAll (forTypedef g id) ∅ (ds ++ ds')).1 =
        ((applyAll (forTypedef g id) ∅ ds).1.merge (applyAll (forTypedef g id) ∅ ds').1).settled ∧
      (applyAll forFunction ∅ (ds ++ ds')).1 =
        (applyAll forFunction ∅ ds).1.merge (applyAll forFunction ∅ ds').1 := by
  rw [applyAll_append, applyAll_append]
  constructor
  · have filed (s t : AnnotationSet) (flag body : String) :
        (s.merge t).settled.addUnknown flag body = (s.merge (t.addUnknown flag body)).settled := by
      rw [AnnotationSet.addUnknown_settled, AnnotationSet.addUnknown_merge]
    -- the run over the second piece starts from the first one's set, merged with nothing and settled already
    have settled := AnnotationSet.settled_of_nodup (applyAll_distinct g id ds).replacements
    have apart := applyAll_merge (fun rule => forTypedef_extends g id) filed ds'
      (applyAll (forTypedef g id) ∅ ds).1 ∅
    rw [AnnotationSet.merge_empty, settled] at apart
    exact apart
  · have apart := applyAll_merge (fun rule => forFunction_extends) AnnotationSet.addUnknown_merge ds'
      (applyAll forFunction ∅ ds).1 ∅
    rw [AnnotationSet.merge_empty] at apart
    exact apart

example :
    let piece := (applyAll [deprecatedType] ∅ [⟨"deprecated", "M.New"⟩]).1
    (piece.merge piece).replacements = ["M.New", "M.New"] ∧
      (piece.merge piece).settled.replacements = ["M.New"] := by
  decide +kernel

end Rule

end IdlDirectives
