import IdlDirectives.Compilation.Annotated
import IdlDirectives.Proofs.Rule.Rejections
import IdlDirectives.Proofs.Rule.Unrecognized

namespace IdlDirectives

def AnnotationSet.Filled (s : AnnotationSet) : Prop :=
  ∀ flag, s.unknown.get? flag ≠ some []

theorem AnnotationSet.Filled.get? {s : AnnotationSet} (filled : s.Filled) (flag : String) :
    s.unknown.get? flag = if s.bodies flag = [] then none else some (s.bodies flag) := by
  cases found : s.unknown.get? flag with
  | none => simp [bodies, found]
  | some listed =>
    have some_body : listed ≠ [] := by
      rintro rfl
      exact filled flag found
    simp [bodies, found, some_body]

theorem AnnotationSet.Filled.addUnknown {s : AnnotationSet} (filled : s.Filled) (flag body : String) :
    (s.addUnknown flag body).Filled := by
  intro other
  simp only [AnnotationSet.addUnknown, NameMap.get?_alter]
  split
  · simp
  · exact filled other

namespace Rule

def Recognized (rules : List Rule) (flag : String) : Prop :=
  ∃ rule ∈ rules, rule.flag = flag

variable {rules : List Rule} {flag : String}

instance : Decidable (Recognized rules flag) :=
  inferInstanceAs (Decidable (∃ rule ∈ rules, rule.flag = flag))

theorem isNone_find?_iff : (rules.find? (·.flag = flag)).isNone = true ↔ ¬ Recognized rules flag := by
  simp [Recognized]

theorem exists_find?_of_recognized (own : Recognized rules flag) :
    ∃ rule ∈ rules, rules.find? (·.flag = flag) = some rule := by
  cases found : rules.find? (·.flag = flag) with
  | none => exact absurd own (isNone_find?_iff.mp (by rw [found]; rfl))
  | some rule => exact ⟨rule, List.mem_of_find?_eq_some found, rfl⟩

theorem unrecognized_eq_filter (ds : List Directive) :
    unrecognized rules ds = ds.filter (fun d => ¬ Recognized rules d.flag) := by
  refine List.filter_congr (fun d _ => ?_)
  rw [Bool.eq_iff_iff, decide_eq_true_iff]
  exact isNone_find?_iff

theorem bodiesOf_eq_nil_iff {ds : List Directive} : bodiesOf flag ds = [] ↔ ∀ d ∈ ds, d.flag ≠ flag := by
  simp [bodiesOf]

theorem bodiesOf_unrecognized (ds : List Directive) :
    bodiesOf flag (unrecognized rules ds) = if Recognized rules flag then [] else bodiesOf flag ds := by
  rw [unrecognized_eq_filter]
  by_cases own : Recognized rules flag
  · rw [if_pos own, bodiesOf_eq_nil_iff]
    rintro d listed rfl
    exact absurd own (of_decide_eq_true (List.mem_filter.mp listed).2)
  · rw [if_neg own, bodiesOf, bodiesOf, List.filter_filter]
    refine congrArg (List.map _) (List.filter_congr (fun d _ => ?_))
    by_cases same : d.flag = flag
    · simp [same, own]
    · simp [same]

section Known

variable (known : (∃ g id, rules = forTypedef g id) ∨ rules = forFunction ∨ rules = forModule)

include known

theorem reason_ne_unrecognized :
    ∀ rule ∈ rules, ∀ params s, ∀ reason ∈ (rule.apply params s).rejections, reason ≠ .unrecognized := by
  intro rule member params s
  refine (settles ?_ params s).recognized
  rcases known with ⟨g, id, rfl⟩ | rfl | rfl
  · exact .inl ⟨g, id, member⟩
  · exact .inr member
  · cases member

theorem applyOne_recognized {d : Directive} (own : Recognized rules d.flag) (s : AnnotationSet) :
    (applyOne rules d s).annotations.unknown = s.unknown ∧
      .unrecognized ∉ (applyOne rules d s).rejections := by
  obtain ⟨rule, member, found⟩ := exists_find?_of_recognized own
  simp only [applyOne, found]
  exact ⟨keeps_unknown known rule member d.params s, fun listed =>
    reason_ne_unrecognized known rule member d.params s _ listed rfl⟩

theorem applyAll_filled (ds : List Directive) : (applyAll rules ∅ ds).1.Filled := by
  refine applyAll_preserves (fun rule member params s filled flag => ?_)
    (fun s flag body filled => filled.addUnknown flag body) ds ?_
  · rw [keeps_unknown known rule member params s]
    exact filled flag
  · intro flag
    simp [show (∅ : AnnotationSet).unknown.get? flag = none from rfl]

theorem unknown_applyAll (ds : List Directive) (flag : String) :
    (applyAll rules ∅ ds).1.unknown.get? flag =
      if Recognized rules flag ∨ ∀ d ∈ ds, d.flag ≠ flag then none else some (bodiesOf flag ds) := by
  have none : (∅ : AnnotationSet).bodies flag = [] := rfl
  rw [(applyAll_filled known ds).get?, bodies_applyAll (keeps_unknown known), none, List.nil_append,
    bodiesOf_unrecognized]
  by_cases own : Recognized rules flag
  · simp [own]
  · simp [own, bodiesOf_eq_nil_iff]

theorem unrecognized_applyAll (ds : List Directive) (s : AnnotationSet) :
    (applyAll rules s ds).2.filter (·.reason = .unrecognized) =
      (unrecognized rules ds).map (fun d => ⟨d.flag, .unrecognized⟩) := by
  induction ds generalizing s with
  | nil => rfl
  | cons d rest ih =>
    rw [applyAll, List.filter_append, ih, unrecognized_eq_filter, unrecognized_eq_filter]
    by_cases own : Recognized rules d.flag
    · have none := (applyOne_recognized known own s).2
      have others : ((applyOne rules d s).rejections.map (Flagged.mk d.flag)).filter
          (·.reason = .unrecognized) = [] := by
        rw [List.filter_eq_nil_iff]
        intro flagged listed unrecognized
        obtain ⟨reason, member, rfl⟩ := List.mem_map.mp listed
        exact none (of_decide_eq_true unrecognized ▸ member)
      simp [others, own]
    · have absent : rules.find? (·.flag = d.flag) = Option.none :=
        Option.isNone_iff_eq_none.mp (isNone_find?_iff.mpr own)
      simp [applyOne, absent, own]

end Known

/-- Of the directives of a comment those that no rule is for are kept, each under its flag and in order,
and each has a warning. A directive that there is a rule for is never kept in this way. -/
theorem unrecognized_filed {rules : List Rule}
    (known : (∃ g id, rules = forTypedef g id) ∨ rules = forFunction ∨ rules = forModule)
    (target : Declaration) (comment : String) :
    let found := Finding.ofComment rules target comment
    let ds := Directive.scan comment
    (∀ flag, flag ∈ found.annotations.unknown.keys ↔
        (∃ d ∈ ds, d.flag = flag) ∧ ¬ Recognized rules flag) ∧
      (∀ flag, (∃ d ∈ ds, d.flag = flag) → ¬ Recognized rules flag →
        found.annotations.unknown.get? flag = some ((ds.filter (·.flag = flag)).map (·.body))) ∧
      found.warnings.filter (·.reason = .unrecognized) =
        (ds.filter (fun d => ¬ Recognized rules d.flag)).map (fun d => ⟨d.flag, target, .unrecognized⟩) ∧
      (∀ flag, Recognized rules flag → found.annotations.unknown.get? flag = none) ∧
      ∀ d s, Recognized rules d.flag →
        (applyOne rules d s).annotations.unknown = s.unknown ∧
          .unrecognized ∉ (applyOne rules d s).rejections := by
  intro found ds
  have filed (flag : String) : found.annotations.unknown.get? flag = _ := unknown_applyAll known ds flag
  refine ⟨fun flag => ?_, fun flag occurs other => ?_, ?_, fun flag own => ?_, ?_⟩
  · rw [NameMap.mem_keys, filed]
    by_cases own : Recognized rules flag
    · simp [own]
    · simp [own]
  · obtain ⟨d, listed, same⟩ := occurs
    rw [filed, if_neg]
    · rfl
    · rintro (own | absent)
      · exact other own
      · exact absent d listed same
  · have flagged := unrecognized_applyAll known ds ∅
    rw [unrecognized_eq_filter] at flagged
    have warnings : found.warnings =
        (applyAll rules ∅ ds).2.map (fun f => Warning.mk f.flag target f.reason) := rfl
    rw [warnings, List.filter_map]
    have shown := congrArg (List.map (fun f : Flagged => Warning.mk f.flag target f.reason)) flagged
    rw [List.map_map] at shown
    exact shown
  · rw [filed, if_pos (.inl own)]
  · exact fun d s own => applyOne_recognized known own s

theorem unrecognized_filed_labelled :
    let comment := "@note a,  b\r\n@optional nowhere\nSome text. @note\n@Note\n @deprecated\n@note"
    let target : Declaration := .typedef label.module label.name
    let type := Finding.ofComment (forTypedef labelled ⟨2⟩) target comment
    let function := Finding.ofComment forFunction (.function "M" "f") comment
    type.annotations.unknown.get? "note" = some ["a,  b", ""] ∧
      "optional" ∉ type.annotations.unknown.keys ∧
      type.warnings.filter (·.reason = .unrecognized) =
        [⟨"note", target, .unrecognized⟩, ⟨"Note", target, .unrecognized⟩,
          ⟨"note", target, .unrecognized⟩] ∧
      "optional" ∈ function.annotations.unknown.keys ∧
      function.annotations.unknown.get? "deprecated" = none := by
  intro comment target type function
  have scanned : Directive.scan comment =
      [⟨"note", "a,  b"⟩, ⟨"optional", "nowhere"⟩, ⟨"Note", ""⟩, ⟨"deprecated", ""⟩, ⟨"note", ""⟩] := by
    decide +kernel
  obtain ⟨keys, filed, flagged, -⟩ := unrecognized_filed (.inl ⟨labelled, ⟨2⟩, rfl⟩) target comment
  obtain ⟨others, -, -, never, -⟩ := unrecognized_filed (.inr (.inl rfl)) (.function "M" "f") comment
  rw [scanned] at keys filed flagged others
  refine ⟨filed "note" (by simp) (by decide), ?_, ?_, ?_, never "deprecated" (by decide)⟩
  · rw [keys]
    exact fun filed => filed.2 (by decide)
  · exact flagged.trans (by decide +kernel)
  · exact (others "optional").mpr ⟨by simp, by decide⟩

end Rule

end IdlDirectives
