import IdlDirectives.Proofs.Directive
import IdlDirectives.Proofs.Rule.Accumulation
import IdlDirectives.Proofs.Rule.Pieces

namespace IdlDirectives.Rule

def paramsOf (flag : String) (ds : List Directive) : List String :=
  (ds.filter (·.flag = flag)).flatMap (·.params)

def reasonsOf (flag : String) (warnings : List Flagged) : List Rejection :=
  (warnings.filter (·.flag = flag)).map (·.reason)

/-- Each of the parameters is either stored or refused, the refused ones for a reason each. -/
def Accounted (reason : String → Rejection) (params stored : List String) (reasons : List Rejection) :
    Prop :=
  ∃ refused, reasons = refused.map reason ∧ (stored ++ refused).Perm params

theorem Accounted.length {reason : String → Rejection} {params stored : List String}
    {reasons : List Rejection} (accounted : Accounted reason params stored reasons) :
    reasons.length + stored.length = params.length := by
  obtain ⟨refused, rfl, all⟩ := accounted
  rw [← all.length_eq, List.length_append, List.length_map, Nat.add_comm]

section Flag

variable {flag : String} {d : Directive} {rest : List Directive}

theorem paramsOf_own (own : d.flag = flag) : paramsOf flag (d :: rest) = d.params ++ paramsOf flag rest := by
  simp [paramsOf, own]

theorem paramsOf_other (other : d.flag ≠ flag) : paramsOf flag (d :: rest) = paramsOf flag rest := by
  simp [paramsOf, other]

theorem reasonsOf_own (own : d.flag = flag) (reasons : List Rejection) (later : List Flagged) :
    reasonsOf flag (reasons.map (⟨d.flag, ·⟩) ++ later) = reasons ++ reasonsOf flag later := by
  simp [reasonsOf, own, List.filter_map, Function.comp_def]

theorem reasonsOf_other (other : d.flag ≠ flag) (reasons : List Rejection) (later : List Flagged) :
    reasonsOf flag (reasons.map (⟨d.flag, ·⟩) ++ later) = reasonsOf flag later := by
  simp [reasonsOf, other, List.filter_map, Function.comp_def]

end Flag

section Keep

variable {objection? : List String → String → Option Rejection}

theorem keepNames_append (kept names more : List String) :
    keepNames objection? kept (names ++ more) =
      ((keepNames objection? (keepNames objection? kept names).1 more).1,
        (keepNames objection? kept names).2 ++
          (keepNames objection? (keepNames objection? kept names).1 more).2) := by
  induction names generalizing kept with
  | nil => rfl
  | cons name rest ih =>
    simp only [List.cons_append, keepNames]
    cases objection? kept name with
    | none => exact ih (kept ++ [name])
    | some reason => simp only [ih kept, List.cons_append]

theorem keepNames_accounted {reason : String → Rejection}
    (particular : ∀ kept name held, objection? kept name = some held → held = reason name)
    (kept names : List String) :
    Accounted reason (kept ++ names) (keepNames objection? kept names).1
      (keepNames objection? kept names).2 := by
  induction names generalizing kept with
  | nil => exact ⟨[], rfl, List.Perm.refl _⟩
  | cons name rest ih =>
    simp only [keepNames]
    cases held : objection? kept name with
    | none =>
      have moved : kept ++ name :: rest = (kept ++ [name]) ++ rest := List.append_cons kept name rest
      rw [moved]
      exact ih (kept ++ [name])
    | some objection =>
      obtain ⟨refused, reasons, all⟩ := ih kept
      have first : objection = reason name := particular kept name objection held
      refine ⟨name :: refused, ?_, ?_⟩
      · dsimp only
        rw [reasons, first, List.map_cons]
      · exact List.perm_middle.trans ((all.cons name).trans List.perm_middle.symm)

theorem keepNames_applyAll {rules : List Rule} {flag : String} {names : AnnotationSet → List String}
    (own : ∀ d s, d.flag = flag →
      names (applyOne rules d s).annotations = (keepNames objection? (names s) d.params).1 ∧
        (applyOne rules d s).rejections = (keepNames objection? (names s) d.params).2)
    (apart : ∀ d s, d.flag ≠ flag → names (applyOne rules d s).annotations = names s)
    (ds : List Directive) (s : AnnotationSet) :
    (names (applyAll rules s ds).1, reasonsOf flag (applyAll rules s ds).2) =
      keepNames objection? (names s) (paramsOf flag ds) := by
  induction ds generalizing s with
  | nil => rfl
  | cons d rest ih =>
    have later := Prod.mk.inj (ih (applyOne rules d s).annotations)
    by_cases same : d.flag = flag
    · obtain ⟨taken, refused⟩ := own d s same
      rw [taken] at later
      rw [paramsOf_own same, keepNames_append, applyAll, reasonsOf_own same, refused, later.1, later.2]
    · rw [apart d s same] at later
      rw [paramsOf_other same, applyAll, reasonsOf_other same, later.1, later.2]

end Keep

theorem isQualified_iff {name : String} :
    isQualified name = true ↔
      ∃ module own, name = qualified module own ∧ (module ≠ "" ∧ '.' ∉ module.toList) ∧
        own ≠ "" ∧ '.' ∉ own.toList := by
  constructor
  · intro valid
    unfold isQualified at valid
    split at valid
    · next module own pieces =>
      have text : name.toList = module ++ '.' :: own := by
        have joined : ['.'].intercalate (name.toList.splitOn '.') = name.toList :=
          List.intercalate_splitOn '.'
        rw [List.splitOn_eq_splitOnP, pieces] at joined
        simpa using joined.symm
      have plain : ∀ piece ∈ [module, own], '.' ∉ piece := by
        intro piece member dot
        rw [← pieces] at member
        cases Text.not_separator_of_mem member '.' dot
      simp only [Bool.and_eq_true, Bool.not_eq_true', List.isEmpty_eq_false_iff] at valid
      refine ⟨String.ofList module, String.ofList own, ?_, ⟨?_, ?_⟩, ?_, ?_⟩
      · apply String.toList_inj.mp
        simp [qualified, String.toList_append, text]
      · simpa using valid.1
      · rw [String.toList_ofList]
        exact plain module (by simp)
      · simpa using valid.2
      · rw [String.toList_ofList]
        exact plain own (by simp)
    · cases valid
  · rintro ⟨module, own, rfl, ⟨named, plain⟩, named', plain'⟩
    have apart {piece : String} (plain : '.' ∉ piece.toList) : ∀ c ∈ piece.toList, (c == '.') = false := by
      intro c member
      refine beq_eq_false_iff_ne.mpr ?_
      rintro rfl
      exact plain member
    have text : (qualified module own).toList = module.toList ++ '.' :: own.toList := by
      simp [qualified, String.toList_append]
    have pieces : (qualified module own).toList.splitOnP (· == '.') = [module.toList, own.toList] := by
      rw [text, List.splitOnP_append_cons _ _ rfl, List.splitOnP_eq_singleton (apart plain),
        List.splitOnP_eq_singleton (apart plain')]
      rfl
    simp [isQualified, pieces, named, named']

variable {g : TypeGraph} {id : TypeId}

theorem isSome_field? (fields : List Field) (name : String) :
    ((BaseType.struct fields).field? name).isSome = decide (name ∈ fields.map (·.name)) := by
  rw [BaseType.field?, Bool.eq_iff_iff, List.find?_isSome]
  simp

theorem applyOne_optional {d : Directive} (own : d.flag = "optional") (s : AnnotationSet) :
    applyOne (forTypedef g id) d s = (optional g id).apply d.params s := by
  have member : optional g id ∈ forTypedef g id := by simp [forTypedef]
  exact applyOne_forTypedef member own s

theorem optional_applyAll {base : TypeId} {fields : List Field}
    (direct : g.resolve id = .ok ⟨base, .struct fields, 1⟩) (ds : List Directive) (s : AnnotationSet) :
    ((applyAll (forTypedef g id) s ds).1.optional,
        reasonsOf "optional" (applyAll (forTypedef g id) s ds).2) =
      keepNames (fun kept name =>
          if ((BaseType.struct fields).field? name).isNone then some (.unknownField name)
          else repeated? kept name)
        s.optional (paramsOf "optional" ds) := by
  refine keepNames_applyAll ?_ ?_ ds s
  · intro d s own
    have target : requireStruct g id = .ok ⟨base, .struct fields, 1⟩ :=
      requireStruct_eq_ok.mpr ⟨direct, rfl⟩
    rw [applyOne_optional own]
    simp only [optional, target, ne_eq, not_true_eq_false, if_false, and_self]
  · intro d s other
    exact read_applyOne_apart (forTypedef_local g id) .optional other s

theorem optional_refuses (indirect : ∀ base fields, g.resolve id ≠ .ok ⟨base, .struct fields, 1⟩) :
    ∃ reason, ∀ params s, (optional g id).apply params s = ⟨s, [reason]⟩ := by
  cases target : requireStruct g id with
  | error reason => exact ⟨reason, fun params s => by simp only [optional, target, Outcome.reject]⟩
  | ok resolved =>
    obtain ⟨resolves, struct⟩ := requireStruct_eq_ok.mp target
    obtain ⟨base, type, depth⟩ := resolved
    have deeper : depth ≠ 1 := by
      rintro rfl
      cases type with
      | struct fields => exact indirect base fields resolves
      | _ => cases struct
    exact ⟨.notDirectStructure depth, fun params s => by simp [optional, target, deeper, Outcome.reject]⟩

theorem applyAll_refused {rules : List Rule} {flag : String} {reason : Rejection}
    (refuses : ∀ d, d.flag = flag → ∀ s, applyOne rules d s = ⟨s, [reason]⟩) (ds : List Directive)
    (s : AnnotationSet) :
    reasonsOf flag (applyAll rules s ds).2 = (ds.filter (·.flag = flag)).map (fun _ => reason) := by
  induction ds generalizing s with
  | nil => rfl
  | cons d rest ih =>
    by_cases own : d.flag = flag
    · rw [applyAll, reasonsOf_own own, ih, refuses d own, List.filter_cons_of_pos (by simpa using own)]
      rfl
    · rw [applyAll, reasonsOf_other own, ih, List.filter_cons_of_neg (by simpa using own)]

theorem applyOne_deprecatedType {d : Directive} (own : d.flag = "deprecated") (s : AnnotationSet) :
    applyOne (forTypedef g id) d s = deprecatedType.apply d.params s := by
  have member : deprecatedType ∈ forTypedef g id := by simp [forTypedef]
  exact applyOne_forTypedef member own s

theorem deprecatedType_applyAll (g : TypeGraph) (id : TypeId) (ds : List Directive) (s : AnnotationSet) :
    ((applyAll (forTypedef g id) s ds).1.replacements,
        reasonsOf "deprecated" (applyAll (forTypedef g id) s ds).2) =
      keepNames (fun kept name => unqualified? .type name <|> repeated? kept name) s.replacements
        (paramsOf "deprecated" ds) := by
  refine keepNames_applyAll ?_ ?_ ds s
  · intro d s own
    rw [applyOne_deprecatedType own]
    exact ⟨rfl, rfl⟩
  · intro d s other
    exact congrArg (Option.getD · []) (read_applyOne_apart (forTypedef_local g id) .deprecated other s)

theorem applyOne_forFunction {d : Directive} (own : d.flag = "deprecated") (s : AnnotationSet) :
    applyOne forFunction d s = deprecatedFunction.apply d.params s := by
  obtain ⟨flag, body⟩ := d
  cases own
  rfl

theorem deprecatedFunction_applyAll (ds : List Directive) (s : AnnotationSet) :
    ((applyAll forFunction s ds).1.replacements, reasonsOf "deprecated" (applyAll forFunction s ds).2) =
      keepNames (fun _ name => unqualified? .function name) s.replacements
        (paramsOf "deprecated" ds) := by
  refine keepNames_applyAll ?_ ?_ ds s
  · intro d s own
    rw [applyOne_forFunction own]
    exact ⟨rfl, rfl⟩
  · intro d s other
    exact congrArg (Option.getD · []) (read_applyOne_apart forFunction_local .deprecated other s)

theorem deprecated_applyAll {rules : List Rule}
    (own : ∀ d s, d.flag = "deprecated" → (applyOne rules d s).annotations.deprecated.isSome = true)
    (apart : ∀ d s, d.flag ≠ "deprecated" → (applyOne rules d s).annotations.deprecated = s.deprecated)
    {ds : List Directive} {s : AnnotationSet}
    (given : s.deprecated.isSome ∨ ∃ d ∈ ds, d.flag = "deprecated") :
    (applyAll rules s ds).1.deprecated = some (applyAll rules s ds).1.replacements := by
  induction ds generalizing s with
  | nil =>
    obtain ⟨names, stored⟩ := Option.isSome_iff_exists.mp (by simpa using given)
    simp [applyAll, AnnotationSet.replacements, stored]
  | cons d rest ih =>
    apply ih
    by_cases same : d.flag = "deprecated"
    · exact .inl (own d s same)
    · rw [apart d s same]
      simpa [same] using given

theorem eq_duplicate {kept : List String} {name : String} {held : Rejection}
    (objected : repeated? kept name = some held) : held = .duplicate name := by
  unfold repeated? at objected
  split at objected
  · exact (Option.some.inj objected).symm
  · cases objected

theorem optional_stored {base : TypeId} {fields : List Field}
    (direct : g.resolve id = .ok ⟨base, .struct fields, 1⟩) (ds : List Directive) :
    (applyAll (forTypedef g id) ∅ ds).1.optional =
        ((paramsOf "optional" ds).filter (· ∈ fields.map (·.name))).eraseDups ∧
      Accounted (fun name => if name ∈ fields.map (·.name) then .duplicate name else .unknownField name)
        (paramsOf "optional" ds) (applyAll (forTypedef g id) ∅ ds).1.optional
        (reasonsOf "optional" (applyAll (forTypedef g id) ∅ ds).2) := by
  obtain ⟨names, reasons⟩ := Prod.mk.inj (optional_applyAll direct ds ∅)
  rw [reasons, names]
  constructor
  · rw [keepNames_fields, AnnotationSet.eraseDups_eq_appendNew]
    simp only [isSome_field?]
    rfl
  · refine keepNames_accounted (fun kept name held objected => ?_) [] (paramsOf "optional" ds)
    rw [← Option.not_isSome, isSome_field?] at objected
    by_cases known : name ∈ fields.map (·.name)
    · rw [decide_eq_true known] at objected
      rw [if_pos known]
      exact eq_duplicate objected
    · rw [decide_eq_false known] at objected
      rw [if_neg known]
      exact (Option.some.inj objected).symm

theorem replacements_stored (g : TypeGraph) (id : TypeId) (ds : List Directive) :
    (applyAll (forTypedef g id) ∅ ds).1.replacements =
        ((paramsOf "deprecated" ds).filter isQualified).eraseDups ∧
      Accounted (fun name => if isQualified name then .duplicate name else .malformedName name .type)
        (paramsOf "deprecated" ds) (applyAll (forTypedef g id) ∅ ds).1.replacements
        (reasonsOf "deprecated" (applyAll (forTypedef g id) ∅ ds).2) := by
  obtain ⟨names, reasons⟩ := Prod.mk.inj (deprecatedType_applyAll g id ds ∅)
  rw [reasons, names]
  constructor
  · rw [keepNames_qualified_new, AnnotationSet.eraseDups_eq_appendNew]
    rfl
  · refine keepNames_accounted (fun kept name held objected => ?_) [] (paramsOf "deprecated" ds)
    by_cases valid : isQualified name = true
    · rw [unqualified?, if_pos valid] at objected
      rw [if_pos valid]
      exact eq_duplicate objected
    · rw [unqualified?, if_neg valid] at objected
      rw [if_neg valid]
      exact (Option.some.inj objected).symm

theorem keepNames_malformed (referent : Referent) (kept names : List String) :
    (keepNames (fun _ name => unqualified? referent name) kept names).2 =
      (names.filter (fun name => !isQualified name)).map (.malformedName · referent) := by
  induction names generalizing kept with
  | nil => rfl
  | cons name rest ih =>
    by_cases valid : isQualified name = true
    · have clear : unqualified? referent name = none := unqualified?_eq_none.mpr valid
      simp only [keepNames, clear, ih, List.filter_cons, valid, Bool.not_true, Bool.false_eq_true, if_false]
    · have fault : unqualified? referent name = some (.malformedName name referent) := if_neg valid
      simp only [keepNames, fault, ih, List.filter_cons, valid, Bool.not_false, if_true, List.map_cons]

theorem function_replacements_stored (ds : List Directive) :
    (applyAll forFunction ∅ ds).1.replacements = (paramsOf "deprecated" ds).filter isQualified ∧
      reasonsOf "deprecated" (applyAll forFunction ∅ ds).2 =
        ((paramsOf "deprecated" ds).filter (fun name => !isQualified name)).map
          (.malformedName · .function) := by
  obtain ⟨names, reasons⟩ := Prod.mk.inj (deprecatedFunction_applyAll ds ∅)
  exact ⟨names.trans (keepNames_qualified _ _ _), reasons.trans (keepNames_malformed _ _ _)⟩

/-- Of the names that are given the ones that count are stored, each at its first place, except that the
replacements of a function are all kept. Every other one has a warning of its own. On a typedef that does
not define a structure no field is optional, and each directive has one warning. -/
theorem name_lists_stored (g : TypeGraph) (id : TypeId) (ds : List Directive) :
    let type := applyAll (forTypedef g id) ∅ ds
    let function := applyAll forFunction ∅ ds
    let fieldParams := paramsOf "optional" ds
    let replacementParams := paramsOf "deprecated" ds
    (∀ base fields, g.resolve id = .ok ⟨base, .struct fields, 1⟩ →
      type.1.optional = (fieldParams.filter (· ∈ fields.map (·.name))).eraseDups ∧
        (reasonsOf "optional" type.2).length + type.1.optional.length = fieldParams.length ∧
        Accounted (fun name => if name ∈ fields.map (·.name) then .duplicate name else .unknownField name)
          fieldParams type.1.optional (reasonsOf "optional" type.2)) ∧
      ((∀ base fields, g.resolve id ≠ .ok ⟨base, .struct fields, 1⟩) →
        type.1.optional = [] ∧
          ∃ reason, (∀ d, d.flag = "optional" → ∀ s,
              applyOne (forTypedef g id) d s = ⟨s, [reason]⟩) ∧
            reasonsOf "optional" type.2 = (ds.filter (·.flag = "optional")).map (fun _ => reason)) ∧
      (∀ name, isQualified name = true ↔
        ∃ module own, name = qualified module own ∧ (module ≠ "" ∧ '.' ∉ module.toList) ∧
          own ≠ "" ∧ '.' ∉ own.toList) ∧
      ((∃ d ∈ ds, d.flag = "deprecated") →
        type.1.deprecated = some (replacementParams.filter isQualified).eraseDups ∧
          function.1.deprecated = some (replacementParams.filter isQualified)) ∧
      Accounted (fun name => if isQualified name then .duplicate name else .malformedName name .type)
        replacementParams type.1.replacements (reasonsOf "deprecated" type.2) ∧
      reasonsOf "deprecated" function.2 =
        (replacementParams.filter (fun name => !isQualified name)).map (.malformedName · .function) := by
  intro type function fieldParams replacementParams
  obtain ⟨replacements, accounted⟩ := replacements_stored g id ds
  obtain ⟨functions, malformed⟩ := function_replacements_stored ds
  refine ⟨?_, ?_, fun name => isQualified_iff, ?_, accounted, malformed⟩
  · intro base fields direct
    obtain ⟨names, each⟩ := optional_stored direct ds
    exact ⟨names, each.length, each⟩
  · intro indirect
    obtain ⟨reason, refuses⟩ := optional_refuses indirect
    have each (d : Directive) (own : d.flag = "optional") (s : AnnotationSet) :
        applyOne (forTypedef g id) d s = ⟨s, [reason]⟩ := (applyOne_optional own s).trans (refuses d.params s)
    have unchanged := read_applyAll_refused (forTypedef_local g id) .optional
      (fun d s own => congrArg Outcome.annotations (each d own s)) ds ∅
    exact ⟨unchanged, reason, each, applyAll_refused each ds ∅⟩
  · intro given
    rw [← replacements, ← functions]
    constructor
    · refine deprecated_applyAll (fun d s own => ?_) (fun d s => ?_) (.inr given)
      · rw [applyOne_deprecatedType own]
        rfl
      · exact fun other => read_applyOne_apart (forTypedef_local g id) .deprecated other s
    · refine deprecated_applyAll (fun d s own => ?_) (fun d s => ?_) (.inr given)
      · rw [applyOne_forFunction own]
        rfl
      · exact fun other => read_applyOne_apart forFunction_local .deprecated other s

theorem name_lists_stored_labelled :
    let ds : List Directive :=
      [⟨"optional", "name size name"⟩, ⟨"deprecated", "M.New Old"⟩, ⟨"colour", "red"⟩,
        ⟨"optional", "label name"⟩, ⟨"deprecated", "M.New .x M.Other"⟩]
    let type := applyAll (forTypedef labelled ⟨2⟩) ∅ ds
    let function := applyAll forFunction ∅ ds
    (type.1.optional = ["name", "label"] ∧ (reasonsOf "optional" type.2).length + 2 = 5) ∧
      type.1.deprecated = some ["M.New", "M.Other"] ∧
      function.1.deprecated = some ["M.New", "M.New", "M.Other"] ∧
      reasonsOf "deprecated" function.2 = [.malformedName "Old" .function, .malformedName ".x" .function] ∧
      (applyAll (forTypedef labelled ⟨1⟩) ∅ ds).1.optional = [] ∧
      reasonsOf "optional" (applyAll (forTypedef labelled ⟨1⟩) ∅ ds).2 =
        [.notDirectStructure 0, .notDirectStructure 0] := by
  intro ds type function
  have direct : labelled.resolve ⟨2⟩ =
      .ok ⟨⟨1⟩, .struct [⟨"name", ⟨0⟩⟩, ⟨"label", ⟨0⟩⟩], 1⟩ := by decide +kernel
  have indirect : ∀ base fields, labelled.resolve ⟨1⟩ ≠ .ok ⟨base, .struct fields, 1⟩ := by
    have itself : labelled.resolve ⟨1⟩ = .ok ⟨⟨1⟩, .struct [⟨"name", ⟨0⟩⟩, ⟨"label", ⟨0⟩⟩], 0⟩ := by
      decide +kernel
    rw [itself]
    nofun
  obtain ⟨stored, -, -, replacements, -, malformed⟩ := name_lists_stored labelled ⟨2⟩ ds
  obtain ⟨-, refused, -⟩ := name_lists_stored labelled ⟨1⟩ ds
  obtain ⟨names, count, -⟩ := stored _ _ direct
  obtain ⟨types, functions⟩ := replacements ⟨⟨"deprecated", "M.New Old"⟩, by simp [ds], rfl⟩
  obtain ⟨none, reason, each, all⟩ := refused indirect
  have optional : type.1.optional = ["name", "label"] := names.trans (by decide +kernel)
  rw [optional] at count
  have held : reason = .notDirectStructure 0 := by
    have first := congrArg Outcome.rejections (each ⟨"optional", ""⟩ rfl ∅)
    have here : (applyOne (forTypedef labelled ⟨1⟩) ⟨"optional", ""⟩ ∅).rejections =
        [.notDirectStructure 0] := by decide +kernel
    rw [here] at first
    exact (List.singleton_inj.mp first).symm
  refine ⟨⟨optional, count.trans (by decide +kernel)⟩, types.trans (by decide +kernel),
    functions.trans (by decide +kernel), malformed.trans (by decide +kernel), none, ?_⟩
  rw [all, held]
  rfl

end IdlDirectives.Rule
