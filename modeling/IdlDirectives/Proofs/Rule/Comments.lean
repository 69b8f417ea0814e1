import IdlDirectives.Proofs.Annotations.Merge
import IdlDirectives.Proofs.Rule.Members

namespace IdlDirectives

structure AnnotationSet.Distinct (s : AnnotationSet) : Prop where
  optional : s.optional.Nodup
  replacements : s.replacements.Nodup

theorem AnnotationSet.bodies_addUnknown (s : AnnotationSet) (flag body other : String) :
    (s.addUnknown flag body).bodies other =
      s.bodies other ++ (if flag = other then [body] else []) := by
  simp only [bodies, addUnknown, NameMap.get?_alter]
  by_cases same : other = flag
  · subst same
    simp
  · simp [same, Ne.symm same]

namespace Rule

theorem keepNames_nodup {objection? : List String → String → Option Rejection}
    (refuses : ∀ kept name, name ∈ kept → objection? kept name ≠ none) {kept : List String}
    (names : List String) (distinct : kept.Nodup) : (keepNames objection? kept names).1.Nodup := by
  induction names generalizing kept with
  | nil => exact distinct
  | cons name rest ih =>
    simp only [keepNames]
    cases objected : objection? kept name with
    | none =>
      have fresh : name ∉ kept := fun member => refuses kept name member objected
      have snoc : (kept ++ [name]).Nodup := by simpa using distinct.concat fresh
      exact ih snoc
    | some reason => exact ih distinct

theorem applyAll_preserves {P : AnnotationSet → Prop} {rules : List Rule}
    (each : ∀ rule ∈ rules, ∀ params s, P s → P (rule.apply params s).annotations)
    (filed : ∀ s flag body, P s → P (s.addUnknown flag body)) (ds : List Directive)
    {s : AnnotationSet} (holds : P s) : P (applyAll rules s ds).1 := by
  induction ds generalizing s with
  | nil => exact holds
  | cons d rest ih =>
    apply ih
    unfold applyOne
    cases found : rules.find? (·.flag = d.flag) with
    | none => exact filed s d.flag d.body holds
    | some rule => exact each rule (List.mem_of_find?_eq_some found) d.params s holds

def unrecognized (rules : List Rule) (ds : List Directive) : List Directive :=
  ds.filter (fun d => (rules.find? (·.flag = d.flag)).isNone)

def bodiesOf (flag : String) (ds : List Directive) : List String :=
  (ds.filter (·.flag = flag)).map (·.body)

theorem bodies_applyAll {rules : List Rule}
    (keep : ∀ rule ∈ rules, ∀ params s, (rule.apply params s).annotations.unknown = s.unknown)
    (ds : List Directive) (s : AnnotationSet) (flag : String) :
    (applyAll rules s ds).1.bodies flag = s.bodies flag ++ bodiesOf flag (unrecognized rules ds) := by
  induction ds generalizing s with
  | nil => simp [applyAll, unrecognized, bodiesOf]
  | cons d rest ih =>
    have later := ih (applyOne rules d s).annotations
    simp only [applyAll, later]
    cases found : rules.find? (·.flag = d.flag) with
    | none =>
      have filed : (applyOne rules d s).annotations = s.addUnknown d.flag d.body := by
        simp only [applyOne, found]
      have first : unrecognized rules (d :: rest) = d :: unrecognized rules rest := by
        simp [unrecognized, found]
      rw [filed, AnnotationSet.bodies_addUnknown, first, List.append_assoc]
      by_cases same : d.flag = flag
      · simp [bodiesOf, same]
      · simp [bodiesOf, same]
    | some rule =>
      have kept : (applyOne rules d s).annotations.unknown = s.unknown := by
        simp only [applyOne, found]
        exact keep rule (List.mem_of_find?_eq_some found) d.params s
      have first : unrecognized rules (d :: rest) = unrecognized rules rest := by
        simp [unrecognized, found]
      rw [first]
      simp only [AnnotationSet.bodies, kept]

section Typedef

variable {g : TypeGraph} {id : TypeId} {rule : Rule}

theorem mem_forTypedef (member : rule ∈ forTypedef g id) :
    rule = optional g id ∨ rule = deprecatedType ∨ rule = identifier g id ∨ rule = bounds g id ∨
      rule = searchable g id ∨ rule = metadata g id := by
  simpa [forTypedef] using member

theorem forTypedef_keeps_unknown (member : rule ∈ forTypedef g id) (params : List String)
    (s : AnnotationSet) : (rule.apply params s).annotations.unknown = s.unknown := by
  rcases mem_forTypedef member with rfl | rfl | rfl | rfl | rfl | rfl
  · exact (optional_owns g id).writes.keeps (fun _ _ => rfl) params s
  · exact deprecatedType_owns.writes.keeps (fun _ _ => rfl) params s
  · exact (identifier_owns g id).writes.keeps (fun _ _ => rfl) params s
  · exact (bounds_owns g id).writes.keeps (fun _ _ => rfl) params s
  · exact (searchable_owns g id).writes.keeps (fun _ _ => rfl) params s
  · exact (metadata_owns g id).writes.keeps (fun _ _ => rfl) params s

theorem optional_distinct (params : List String) {s : AnnotationSet} (distinct : s.optional.Nodup) :
    ((optional g id).apply params s).annotations.optional.Nodup := by
  simp only [optional]
  cases requireStruct g id with
  | error reason => exact distinct
  | ok resolved =>
    dsimp only
    split
    · exact distinct
    · apply keepNames_nodup _ params distinct
      intro kept name member
      split
      · simp
      · simp [repeated?, member]

theorem deprecatedType_distinct (params : List String) {s : AnnotationSet}
    (distinct : s.replacements.Nodup) :
    (deprecatedType.apply params s).annotations.replacements.Nodup := by
  apply keepNames_nodup _ params distinct
  intro kept name member
  simp [repeated?, member]

theorem forTypedef_distinct (member : rule ∈ forTypedef g id) (params : List String)
    (s : AnnotationSet) (distinct : s.Distinct) : (rule.apply params s).annotations.Distinct := by
  have untouched {α : Type} {write : AnnotationSet → α → AnnotationSet} (writes : rule.Writes write)
      (optional : ∀ s value, (write s value).optional = s.optional)
      (replacements : ∀ s value, (write s value).replacements = s.replacements) :
      (rule.apply params s).annotations.Distinct := by
    refine ⟨?_, ?_⟩
    · rw [writes.keeps optional]
      exact distinct.optional
    · rw [writes.keeps replacements]
      exact distinct.replacements
  rcases mem_forTypedef member with rfl | rfl | rfl | rfl | rfl | rfl
  · have kept : ((optional g id).apply params s).annotations.replacements = s.replacements :=
      (optional_owns g id).writes.keeps (fun _ _ => rfl) params s
    exact ⟨optional_distinct params distinct.optional, kept ▸ distinct.replacements⟩
  · exact ⟨distinct.optional, deprecatedType_distinct params distinct.replacements⟩
  · exact untouched (identifier_owns g id).writes (fun _ _ => rfl) (fun _ _ => rfl)
  · exact untouched (bounds_owns g id).writes (fun _ _ => rfl) (fun _ _ => rfl)
  · exact untouched (searchable_owns g id).writes (fun _ _ => rfl) (fun _ _ => rfl)
  · exact untouched (metadata_owns g id).writes (fun _ _ => rfl) (fun _ _ => rfl)

theorem applyAll_distinct (g : TypeGraph) (id : TypeId) (ds : List Directive) :
    (applyAll (forTypedef g id) ∅ ds).1.Distinct := by
  apply applyAll_preserves (P := AnnotationSet.Distinct) (fun rule member => forTypedef_distinct member)
  · intro s flag body distinct
    exact ⟨distinct.optional, distinct.replacements⟩
  · exact ⟨List.nodup_nil, List.nodup_nil⟩

theorem applyComment_distinct (g : TypeGraph) (id : TypeId) (comment : String) :
    (applyComment (forTypedef g id) comment).1.Distinct :=
  applyAll_distinct g id (Directive.scan comment)

theorem bodies_applyComment (g : TypeGraph) (id : TypeId) (comment flag : String) :
    (applyComment (forTypedef g id) comment).1.bodies flag =
      bodiesOf flag (unrecognized (forTypedef g id) (Directive.scan comment)) := by
  have keep : ∀ rule ∈ forTypedef g id, ∀ params s,
      (rule.apply params s).annotations.unknown = s.unknown := fun _ => forTypedef_keeps_unknown
  have none : (∅ : AnnotationSet).bodies flag = [] := rfl
  rw [applyComment, bodies_applyAll keep, none, List.nil_append]

end Typedef

end Rule

end IdlDirectives
