import IdlDirectives.Proofs.Rule.Comments

namespace IdlDirectives

namespace NameMap

variable {α : Type}

def only (m : NameMap α) (key : String) : NameMap α :=
  match m.get? key with
  | none => ∅
  | some value => (∅ : NameMap α).insert key value

theorem get?_only (m : NameMap α) (key name : String) :
    (m.only key).get? name = if name = key then m.get? key else none := by
  unfold only
  cases found : m.get? key with
  | none => simp
  | some value => rw [get?_insert, get?_empty]

theorem only_alter (m : NameMap α) (key : String) (f : Option α → α) :
    (m.alter key f).only key = (m.only key).alter key f := by
  apply ext_get?
  intro name
  rw [get?_only, get?_alter, get?_alter, get?_only, get?_only]
  by_cases own : name = key
  · simp only [own, if_true]
  · simp only [own, if_false]

theorem only_alter_of_ne {key other : String} (apart : other ≠ key) (m : NameMap α)
    (f : Option α → α) : (m.alter key f).only other = m.only other := by
  apply ext_get?
  intro name
  rw [get?_only, get?_only, get?_alter, if_neg apart]

end NameMap

namespace AnnotationSet

/-- What belongs to a flag: the member that its rule writes, if there is a rule for it, and the directives
that are filed under it. -/
def owned (flag : String) (s : AnnotationSet) : AnnotationSet where
  optional := if flag = "optional" then s.optional else []
  deprecated := if flag = "deprecated" then s.deprecated else none
  identifier := if flag = "id" then s.identifier else none
  bounds := if flag = "range" then s.bounds else none
  searchable := if flag = "searchable" then s.searchable else none
  metadata := if flag = "metadata" then s.metadata else ∅
  unknown := s.unknown.only flag

theorem ext_of_owned {s t : AnnotationSet} (same : ∀ flag, s.owned flag = t.owned flag) : s = t := by
  have optional : s.optional = t.optional := by
    simpa [owned] using congrArg AnnotationSet.optional (same "optional")
  have deprecated : s.deprecated = t.deprecated := by
    simpa [owned] using congrArg AnnotationSet.deprecated (same "deprecated")
  have identifier : s.identifier = t.identifier := by
    simpa [owned] using congrArg AnnotationSet.identifier (same "id")
  have bounds : s.bounds = t.bounds := by
    simpa [owned] using congrArg AnnotationSet.bounds (same "range")
  have searchable : s.searchable = t.searchable := by
    simpa [owned] using congrArg AnnotationSet.searchable (same "searchable")
  have metadata : s.metadata = t.metadata := by
    simpa [owned] using congrArg AnnotationSet.metadata (same "metadata")
  have unknown : s.unknown = t.unknown := by
    apply NameMap.ext_get?
    intro flag
    have filed := congrArg (fun s => s.unknown.get? flag) (same flag)
    simpa [owned, NameMap.get?_only] using filed
  obtain ⟨_, _, _, _, _, _, _⟩ := s
  cases optional
  cases deprecated
  cases identifier
  cases bounds
  cases searchable
  cases metadata
  cases unknown
  rfl

theorem owned_addUnknown (s : AnnotationSet) (flag body : String) :
    (s.addUnknown flag body).owned flag = (s.owned flag).addUnknown flag body := by
  simp only [owned, addUnknown, NameMap.only_alter]

theorem owned_addUnknown_of_ne {flag other : String} (apart : other ≠ flag) (s : AnnotationSet)
    (body : String) : (s.addUnknown flag body).owned other = s.owned other := by
  simp only [owned, addUnknown, NameMap.only_alter_of_ne apart]

structure Member.BelongsTo {α : Type} (m : Member α) (flag : String) : Prop where
  read_owned : ∀ s, m.read (s.owned flag) = m.read s
  owned_write : ∀ s value, (m.write s value).owned flag = m.write (s.owned flag) value
  apart : ∀ other, other ≠ flag → ∀ s value, (m.write s value).owned other = s.owned other

theorem Member.BelongsTo.optional : Member.optional.BelongsTo "optional" where
  read_owned s := by simp [Member.optional, owned]
  owned_write s value := by simp [Member.optional, owned]
  apart other different s value := by simp [Member.optional, owned, different]

theorem Member.BelongsTo.deprecated : Member.deprecated.BelongsTo "deprecated" where
  read_owned s := by simp [Member.deprecated, owned]
  owned_write s value := by simp [Member.deprecated, owned]
  apart other different s value := by simp [Member.deprecated, owned, different]

theorem Member.BelongsTo.identifier : Member.identifier.BelongsTo "id" where
  read_owned s := by simp [Member.identifier, owned]
  owned_write s value := by simp [Member.identifier, owned]
  apart other different s value := by simp [Member.identifier, owned, different]

theorem Member.BelongsTo.bounds : Member.bounds.BelongsTo "range" where
  read_owned s := by simp [Member.bounds, owned]
  owned_write s value := by simp [Member.bounds, owned]
  apart other different s value := by simp [Member.bounds, owned, different]

theorem Member.BelongsTo.searchable : Member.searchable.BelongsTo "searchable" where
  read_owned s := by simp [Member.searchable, owned]
  owned_write s value := by simp [Member.searchable, owned]
  apart other different s value := by simp [Member.searchable, owned, different]

theorem Member.BelongsTo.metadata : Member.metadata.BelongsTo "metadata" where
  read_owned s := by simp [Member.metadata, owned]
  owned_write s value := by simp [Member.metadata, owned]
  apart other different s value := by simp [Member.metadata, owned, different]

end AnnotationSet

namespace Rule

/-- A rule sees and changes only what belongs to its flag. -/
structure Local (rule : Rule) : Prop where
  own : ∀ params s,
    rule.apply params (s.owned rule.flag) =
      ⟨(rule.apply params s).annotations.owned rule.flag, (rule.apply params s).rejections⟩
  apart : ∀ other, other ≠ rule.flag → ∀ params s,
    (rule.apply params s).annotations.owned other = s.owned other

theorem Owns.isLocal {α : Type} {rule : Rule} {m : AnnotationSet.Member α} (owns : rule.Owns m)
    (belongs : m.BelongsTo rule.flag) : rule.Local where
  own params s := by
    rw [owns params s, owns params (s.owned rule.flag), belongs.read_owned, belongs.owned_write]
  apart other different params s := by
    rw [owns params s, belongs.apart other different]

theorem forTypedef_local (g : TypeGraph) (id : TypeId) : ∀ rule ∈ forTypedef g id, rule.Local := by
  intro rule member
  rcases mem_forTypedef member with rfl | rfl | rfl | rfl | rfl | rfl
  · exact (optional_owns g id).isLocal .optional
  · exact deprecatedType_owns.isLocal .deprecated
  · exact (identifier_owns g id).isLocal .identifier
  · exact (bounds_owns g id).isLocal .bounds
  · exact (searchable_owns g id).isLocal .searchable
  · exact (metadata_owns g id).isLocal .metadata

theorem forFunction_local : ∀ rule ∈ forFunction, rule.Local := by
  intro rule member
  obtain rfl : rule = deprecatedFunction := by simpa [forFunction] using member
  exact deprecatedFunction_owns.isLocal .deprecated

theorem forModule_local : ∀ rule ∈ forModule, rule.Local := by
  simp [forModule]

theorem applyOne_forTypedef {g : TypeGraph} {id : TypeId} {rule : Rule} (member : rule ∈ forTypedef g id)
    {d : Directive} (own : d.flag = rule.flag) (s : AnnotationSet) :
    applyOne (forTypedef g id) d s = rule.apply d.params s := by
  obtain ⟨flag, body⟩ := d
  rcases mem_forTypedef member with rfl | rfl | rfl | rfl | rfl | rfl
  all_goals
    cases own
    rfl

section

variable {rules : List Rule} (areLocal : ∀ rule ∈ rules, rule.Local)

include areLocal

theorem applyOne_own (d : Directive) (s : AnnotationSet) :
    applyOne rules d (s.owned d.flag) =
      ⟨(applyOne rules d s).annotations.owned d.flag, (applyOne rules d s).rejections⟩ := by
  unfold applyOne
  cases found : rules.find? (·.flag = d.flag) with
  | none => simp only [AnnotationSet.owned_addUnknown]
  | some rule =>
    have flag : rule.flag = d.flag := by simpa using List.find?_some found
    have own := (areLocal rule (List.mem_of_find?_eq_some found)).own d.params s
    rwa [flag] at own

theorem applyOne_apart {d : Directive} {other : String} (different : other ≠ d.flag)
    (s : AnnotationSet) : (applyOne rules d s).annotations.owned other = s.owned other := by
  unfold applyOne
  cases found : rules.find? (·.flag = d.flag) with
  | none => exact AnnotationSet.owned_addUnknown_of_ne different s d.body
  | some rule =>
    have flag : rule.flag = d.flag := by simpa using List.find?_some found
    exact (areLocal rule (List.mem_of_find?_eq_some found)).apart other (flag ▸ different) d.params s

theorem read_applyOne_apart {α : Type} {m : AnnotationSet.Member α} {flag : String}
    (belongs : m.BelongsTo flag) {d : Directive} (other : d.flag ≠ flag) (s : AnnotationSet) :
    m.read (applyOne rules d s).annotations = m.read s := by
  rw [← belongs.read_owned, applyOne_apart areLocal (Ne.symm other), belongs.read_owned]

theorem read_applyAll_refused {α : Type} {m : AnnotationSet.Member α} {flag : String}
    (belongs : m.BelongsTo flag)
    (refuses : ∀ d s, d.flag = flag → (applyOne rules d s).annotations = s) (ds : List Directive)
    (s : AnnotationSet) : m.read (applyAll rules s ds).1 = m.read s := by
  induction ds generalizing s with
  | nil => rfl
  | cons d rest ih =>
    rw [applyAll, ih]
    by_cases own : d.flag = flag
    · rw [refuses d s own]
    · exact read_applyOne_apart areLocal belongs own s

theorem applyAll_owned (flag : String) (ds : List Directive) (s : AnnotationSet) :
    applyAll rules (s.owned flag) (ds.filter (·.flag = flag)) =
      ((applyAll rules s ds).1.owned flag, (applyAll rules s ds).2.filter (·.flag = flag)) := by
  induction ds generalizing s with
  | nil => rfl
  | cons d rest ih =>
    have later := ih (applyOne rules d s).annotations
    by_cases same : d.flag = flag
    · subst same
      have here : ∀ reasons : List Rejection, (reasons.map (Flagged.mk d.flag ·)).filter
          (·.flag = d.flag) = reasons.map (Flagged.mk d.flag ·) := by simp
      rw [List.filter_cons_of_pos (by simp)]
      simp only [applyAll, applyOne_own areLocal, later, List.filter_append, here]
    · have none : ∀ reasons : List Rejection, (reasons.map (Flagged.mk d.flag ·)).filter
          (·.flag = flag) = [] := by simp [same]
      rw [applyOne_apart areLocal (Ne.symm same)] at later
      rw [List.filter_cons_of_neg (by simpa using same)]
      simp only [applyAll, later, List.filter_append, none, List.nil_append]

end

/-- Two lists that have the same directives of each flag, in the same order, give the same annotations,
and the same warnings of each flag. -/
theorem applyAll_interleaved {rules : List Rule}
    (known : (∃ g id, rules = forTypedef g id) ∨ rules = forFunction ∨ rules = forModule)
    (s : AnnotationSet) (ds ds' : List Directive)
    (same : ∀ flag, ds.filter (·.flag = flag) = ds'.filter (·.flag = flag)) :
    (applyAll rules s ds).1 = (applyAll rules s ds').1 ∧
      ∀ flag, (applyAll rules s ds).2.filter (·.flag = flag) =
        (applyAll rules s ds').2.filter (·.flag = flag) := by
  have areLocal : ∀ rule ∈ rules, rule.Local := by
    rcases known with ⟨g, id, rfl⟩ | rfl | rfl
    · exact forTypedef_local g id
    · exact forFunction_local
    · exact forModule_local
  have parts (flag : String) :
      ((applyAll rules s ds).1.owned flag, (applyAll rules s ds).2.filter (·.flag = flag)) =
        ((applyAll rules s ds').1.owned flag, (applyAll rules s ds').2.filter (·.flag = flag)) :=
    calc
      _ = applyAll rules (s.owned flag) (ds.filter (·.flag = flag)) :=
        (applyAll_owned areLocal flag ds s).symm
      _ = applyAll rules (s.owned flag) (ds'.filter (·.flag = flag)) := by rw [same flag]
      _ = _ := applyAll_owned areLocal flag ds' s
  constructor
  · apply AnnotationSet.ext_of_owned
    intro flag
    exact congrArg Prod.fst (parts flag)
  · intro flag
    exact congrArg Prod.snd (parts flag)

def label : Typedef := ⟨"M", "T", "", ⟨1⟩⟩

def labelled : TypeGraph where
  nodes :=
    #[⟨.base (.scalar .string), none⟩, ⟨.base (.struct [⟨"name", ⟨0⟩⟩, ⟨"label", ⟨0⟩⟩]), none⟩,
      ⟨(.typedef label), none⟩]
  table := ∅

theorem applyAll_interleaved_labelled :
    let ds : List Directive :=
      [⟨"optional", "name"⟩, ⟨"colour", "red"⟩, ⟨"optional", "label name"⟩, ⟨"deprecated", "M.Old"⟩]
    let ds' : List Directive :=
      [⟨"deprecated", "M.Old"⟩, ⟨"optional", "name"⟩, ⟨"optional", "label name"⟩, ⟨"colour", "red"⟩]
    (∀ flag, ds.filter (·.flag = flag) = ds'.filter (·.flag = flag)) ∧
      (applyAll (forTypedef labelled ⟨2⟩) ∅ ds).1 = (applyAll (forTypedef labelled ⟨2⟩) ∅ ds').1 ∧
      (applyAll (forTypedef labelled ⟨2⟩) ∅ ds).2 =
        [⟨"colour", .unrecognized⟩, ⟨"optional", .duplicate "name"⟩] ∧
      (applyAll (forTypedef labelled ⟨2⟩) ∅ ds').2 =
        [⟨"optional", .duplicate "name"⟩, ⟨"colour", .unrecognized⟩] := by
  intro ds ds'
  have same : ∀ flag, ds.filter (·.flag = flag) = ds'.filter (·.flag = flag) := by
    intro flag
    by_cases optional : "optional" = flag
    · subst optional
      decide
    · by_cases deprecated : "deprecated" = flag
      · subst deprecated
        decide
      · simp [ds, ds', List.filter_cons, optional, deprecated]
  refine ⟨same, (applyAll_interleaved (.inl ⟨labelled, ⟨2⟩, rfl⟩) ∅ ds ds' same).1, ?_, ?_⟩
  · decide +kernel
  · decide +kernel

end Rule

end IdlDirectives
