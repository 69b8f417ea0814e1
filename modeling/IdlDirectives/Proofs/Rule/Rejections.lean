import IdlDirectives.Proofs.Rule.Interval
import IdlDirectives.Proofs.Rule.Metadata
import IdlDirectives.Proofs.Rule.NameLists
import IdlDirectives.Proofs.Rule.Parameters
import IdlDirectives.Proofs.Types.Resolution

namespace IdlDirectives

structure Rejection.IsOfParameter (reason : Rejection) : Prop where
  particular : reason.isOfDirective = false
  recognized : reason ≠ .unrecognized

/-- What a rule makes of a directive: it changes nothing and has one reason for that, or nothing is held
against more than a parameter. -/
inductive Outcome.Settles (s : AnnotationSet) : Outcome → Prop
  | refused {reason : Rejection} (whole : reason.isOfDirective = true) : Settles s (.reject s reason)
  | taken {t : AnnotationSet} {reasons : List Rejection}
      (particular : ∀ reason ∈ reasons, reason.IsOfParameter) : Settles s ⟨t, reasons⟩

namespace Outcome.Settles

variable {s : AnnotationSet} {outcome : Outcome} {reason : Rejection}

theorem eq_reject (settles : outcome.Settles s) (listed : reason ∈ outcome.rejections)
    (whole : reason.isOfDirective = true) : outcome = .reject s reason := by
  cases settles with
  | refused =>
    obtain rfl := List.mem_singleton.mp listed
    rfl
  | taken particular =>
    have other := (particular reason listed).particular
    rw [whole] at other
    cases other

theorem recognized (settles : outcome.Settles s) : ∀ reason ∈ outcome.rejections, reason ≠ .unrecognized := by
  intro reason listed
  cases settles with
  | refused whole =>
    rw [List.mem_singleton.mp listed]
    rintro rfl
    cases whole
  | taken particular => exact (particular reason listed).recognized

end Outcome.Settles

theorem MetadataEntry.ofWords_eq_error {first : String} {rest : List String} {reason : Rejection}
    (failed : ofWords first rest = .error reason) : reason = .missingMetadataName := by
  rcases exists_split rest with unmarked | ⟨before, mark, name, rfl, unmarked, marks⟩
  · rw [ofWords_unmarked first unmarked] at failed
    cases failed
  · rw [ofWords_marked first unmarked marks] at failed
    split at failed
    · exact (Except.error.inj failed).symm
    · cases failed

namespace Rule

theorem exists_objection {objection? : List String → String → Option Rejection} {kept names : List String}
    {reason : Rejection} (listed : reason ∈ (keepNames objection? kept names).2) :
    ∃ kept', ∃ name ∈ names, objection? kept' name = some reason := by
  induction names generalizing kept with
  | nil => cases listed
  | cons name rest ih =>
    simp only [keepNames] at listed
    cases objected : objection? kept name with
    | none =>
      rw [objected] at listed
      obtain ⟨kept', other, member, found⟩ := ih listed
      exact ⟨kept', other, List.mem_cons_of_mem name member, found⟩
    | some first =>
      rw [objected] at listed
      rcases List.mem_cons.mp listed with rfl | later
      · exact ⟨kept, name, List.mem_cons_self, objected⟩
      · obtain ⟨kept', other, member, found⟩ := ih later
        exact ⟨kept', other, List.mem_cons_of_mem name member, found⟩

theorem eq_malformedName {referent : Referent} {name : String} {reason : Rejection}
    (objected : unqualified? referent name = some reason) : reason = .malformedName name referent := by
  unfold unqualified? at objected
  split at objected
  · cases objected
  · exact (Option.some.inj objected).symm

theorem malformed_or_duplicate {referent : Referent} {kept : List String} {name : String}
    {reason : Rejection} (objected : (unqualified? referent name <|> repeated? kept name) = some reason) :
    reason = .malformedName name referent ∨ reason = .duplicate name := by
  cases malformed : unqualified? referent name with
  | none =>
    rw [malformed] at objected
    exact .inr (eq_duplicate objected)
  | some other =>
    rw [malformed] at objected
    exact .inl (eq_malformedName (malformed.trans objected))

theorem keepNames_isOfParameter {objection? : List String → String → Option Rejection}
    (each : ∀ kept name reason, objection? kept name = some reason → reason.IsOfParameter)
    (kept names : List String) : ∀ reason ∈ (keepNames objection? kept names).2, reason.IsOfParameter := by
  intro reason listed
  obtain ⟨kept', name, -, objected⟩ := exists_objection listed
  exact each kept' name reason objected

theorem repeated?_isOfParameter {kept : List String} {name : String} {reason : Rejection}
    (objected : repeated? kept name = some reason) : reason.IsOfParameter := by
  rw [eq_duplicate objected]
  exact ⟨rfl, by simp⟩

theorem unqualified?_isOfParameter {referent : Referent} {name : String} {reason : Rejection}
    (objected : unqualified? referent name = some reason) : reason.IsOfParameter := by
  rw [eq_malformedName objected]
  exact ⟨rfl, by simp⟩

theorem unqualified_or_repeated_isOfParameter {referent : Referent} {kept : List String} {name : String}
    {reason : Rejection} (objected : (unqualified? referent name <|> repeated? kept name) = some reason) :
    reason.IsOfParameter := by
  rcases malformed_or_duplicate objected with rfl | rfl
  · exact ⟨rfl, by simp⟩
  · exact ⟨rfl, by simp⟩

theorem identifierFaults_isOfParameter (type : String) (attributes : List String) :
    ∀ reason ∈ identifierFaults type attributes, reason.IsOfParameter := by
  intro reason listed
  unfold identifierFaults at listed
  split at listed
  · split at listed
    · cases listed
    · rw [List.mem_singleton.mp listed]
      exact ⟨rfl, by simp⟩
  · split at listed
    · cases listed
    · split at listed
      · exact keepNames_isOfParameter (fun _ _ _ => unqualified_or_repeated_isOfParameter) [] attributes
          reason listed
      · rw [List.mem_singleton.mp listed]
        exact ⟨rfl, by simp⟩

variable {g : TypeGraph} {id : TypeId}

theorem searchFault?_isOfParameter {param : String} {reason : Rejection}
    (fault : searchFault? g id param = some reason) : reason.IsOfParameter := by
  unfold searchFault? at fault
  split at fault
  · cases fault
    exact ⟨rfl, by simp⟩
  · split at fault
    · cases fault
      exact ⟨rfl, by simp⟩
    · cases fault

theorem optional_settles (params : List String) (s : AnnotationSet) :
    ((optional g id).apply params s).Settles s := by
  simp only [optional]
  cases target : requireStruct g id with
  | error reason => exact .refused (isOfDirective_of_requireStruct target)
  | ok resolved =>
    dsimp only
    split
    · exact .refused rfl
    · refine .taken (keepNames_isOfParameter (fun kept name reason objected => ?_) s.optional params)
      split at objected
      · cases objected
        exact ⟨rfl, by simp⟩
      · exact repeated?_isOfParameter objected

theorem deprecatedType_settles (params : List String) (s : AnnotationSet) :
    (deprecatedType.apply params s).Settles s :=
  .taken (keepNames_isOfParameter (fun _ _ _ => unqualified_or_repeated_isOfParameter) _ params)

theorem deprecatedFunction_settles (params : List String) (s : AnnotationSet) :
    (deprecatedFunction.apply params s).Settles s :=
  .taken (keepNames_isOfParameter (fun _ _ _ => unqualified?_isOfParameter) _ params)

theorem identifier_settles (params : List String) (s : AnnotationSet) :
    ((identifier g id).apply params s).Settles s := by
  simp only [identifier]
  cases g.resolve id with
  | error cause => exact .refused rfl
  | ok resolved =>
    dsimp only
    split
    · exact .refused rfl
    · split
      · exact .refused rfl
      · cases params with
        | nil => exact .refused rfl
        | cons type attributes => exact .taken (identifierFaults_isOfParameter type attributes)

theorem bounds_settles (params : List String) (s : AnnotationSet) :
    ((bounds g id).apply params s).Settles s := by
  simp only [bounds]
  cases g.resolve id with
  | error cause => exact .refused rfl
  | ok resolved =>
    dsimp only
    split
    · exact .refused rfl
    · cases read : Bounds.parse (String.join params) with
      | error reason =>
        refine .refused ?_
        rcases Bounds.parse_error_cases read with rfl | rfl
        · rfl
        · rfl
      | ok b => exact .taken (List.forall_mem_nil _)

theorem searchable_settles (params : List String) (s : AnnotationSet) :
    ((searchable g id).apply params s).Settles s := by
  rcases searchable_cases g id params s with ⟨reason, whole, refused, -⟩ | ⟨resolved, paths, -, -, taken⟩
  · rw [refused]
    exact .refused whole
  · rw [taken]
    refine .taken (fun reason listed => ?_)
    obtain ⟨param, -, fault⟩ := List.mem_filterMap.mp listed
    exact searchFault?_isOfParameter fault

theorem metadata_settles (params : List String) (s : AnnotationSet) :
    ((metadata g id).apply params s).Settles s := by
  simp only [metadata]
  cases target : requireStruct g id with
  | error reason => exact .refused (isOfDirective_of_requireStruct target)
  | ok resolved =>
    rcases params with _ | ⟨context, _ | ⟨first, rest⟩⟩
    · exact .refused rfl
    · dsimp only
      split
      · exact .refused rfl
      · exact .refused rfl
    · dsimp only
      split
      · exact .refused rfl
      · cases read : MetadataEntry.ofWords first rest with
        | error reason =>
          obtain rfl := MetadataEntry.ofWords_eq_error read
          exact .refused rfl
        | ok entry =>
          dsimp only
          split
          · exact .refused rfl
          · exact .taken (List.forall_mem_nil _)

theorem settles {rule : Rule} (known : (∃ g id, rule ∈ forTypedef g id) ∨ rule ∈ forFunction)
    (params : List String) (s : AnnotationSet) : (rule.apply params s).Settles s := by
  rcases known with ⟨g, id, member⟩ | member
  · rcases mem_forTypedef member with rfl | rfl | rfl | rfl | rfl | rfl
    · exact optional_settles params s
    · exact deprecatedType_settles params s
    · exact identifier_settles params s
    · exact bounds_settles params s
    · exact searchable_settles params s
    · exact metadata_settles params s
  · rw [List.mem_singleton.mp member]
    exact deprecatedFunction_settles params s

theorem apply_unresolved {cause : ResolveError} (unresolved : g.resolve id = .error cause) {rule : Rule}
    (member : rule ∈ forTypedef g id) (typed : rule.flag ≠ "deprecated") (params : List String)
    (s : AnnotationSet) : rule.apply params s = .reject s (.unresolved cause) := by
  have target : requireStruct g id = .error (.unresolved cause) := by rw [requireStruct, unresolved]
  rcases mem_forTypedef member with rfl | rfl | rfl | rfl | rfl | rfl
  · simp only [optional, target]
  · exact absurd rfl typed
  · simp only [identifier, unresolved]
  · simp only [bounds, unresolved]
  · simp only [searchable, target]
  · simp only [metadata, target]

theorem applyOne_eq_reject {rules : List Rule}
    (known : ∀ rule ∈ rules, (∃ g id, rule ∈ forTypedef g id) ∨ rule ∈ forFunction) {d : Directive}
    {s : AnnotationSet} {reason : Rejection} (listed : reason ∈ (applyOne rules d s).rejections)
    (whole : reason.isOfDirective = true) : applyOne rules d s = .reject s reason := by
  unfold applyOne at listed ⊢
  cases found : rules.find? (·.flag = d.flag) with
  | none =>
    rw [found] at listed
    rw [List.mem_singleton.mp listed] at whole
    cases whole
  | some rule =>
    rw [found] at listed
    exact (settles (known rule (List.mem_of_find?_eq_some found)) d.params s).eq_reject listed whole

theorem applyAll_without {rules : List Rule} {s : AnnotationSet} {before : List Directive} {d : Directive}
    {reason : Rejection}
    (refused : applyOne rules d (applyAll rules s before).1 = .reject (applyAll rules s before).1 reason)
    (after : List Directive) :
    applyAll rules s (before ++ d :: after) =
      ((applyAll rules s (before ++ after)).1,
        (applyAll rules s before).2 ++
          ⟨d.flag, reason⟩ :: (applyAll rules (applyAll rules s before).1 after).2) := by
  rw [applyAll_append, applyAll_append, applyAll, refused]
  rfl

/-- A directive that is rejected as a whole has no other warning, and neither the set nor what the
directives behind it do is changed. On a typedef that leads in a circle or to no type that happens to each
directive that needs one. -/
theorem rejected_changes_nothing :
    (∀ rule : Rule, ((∃ g id, rule ∈ forTypedef g id) ∨ rule ∈ forFunction) →
        ∀ params s, ∀ reason ∈ (rule.apply params s).rejections, reason.isOfDirective = true →
          (rule.apply params s).rejections = [reason] ∧ (rule.apply params s).annotations = s) ∧
      (∀ rules, ((∃ g id, rules = forTypedef g id) ∨ rules = forFunction) →
        ∀ s before d after, ∀ reason ∈ (applyOne rules d (applyAll rules s before).1).rejections,
          reason.isOfDirective = true →
          (applyAll rules s (before ++ d :: after)).1 = (applyAll rules s (before ++ after)).1 ∧
            (applyAll rules s (before ++ d :: after)).2.length =
              (applyAll rules s (before ++ after)).2.length + 1) ∧
      ∀ (g : TypeGraph) id,
        ((∀ steps, (g.link? id steps).isSome) ∨
          ∃ steps last, g.link? id steps = some last ∧ g.shape? last = none) →
        ∃ cause, g.resolve id = .error cause ∧
          ∀ d s, (∃ rule ∈ forTypedef g id, rule.flag = d.flag) → d.flag ≠ "deprecated" →
            (applyOne (forTypedef g id) d s).rejections = [.unresolved cause] ∧
              (applyOne (forTypedef g id) d s).annotations = s := by
  refine ⟨?_, ?_, ?_⟩
  · intro rule known params s reason listed whole
    rw [(settles known params s).eq_reject listed whole]
    exact ⟨rfl, rfl⟩
  · intro rules known s before d after reason listed whole
    have each : ∀ rule ∈ rules, (∃ g id, rule ∈ forTypedef g id) ∨ rule ∈ forFunction := by
      rcases known with ⟨g, id, rfl⟩ | rfl
      · exact fun rule member => .inl ⟨g, id, member⟩
      · exact fun rule member => .inr member
    have refused := applyOne_eq_reject each listed whole
    rw [applyAll_without refused, applyAll_append]
    refine ⟨rfl, ?_⟩
    simp only [List.length_append, List.length_cons]
    omega
  · intro g id astray
    have failed : ∃ cause, g.resolve id = .error cause := by
      rcases astray with endless | ⟨steps, last, reached, absent⟩
      · obtain ⟨chain, resolves⟩ := TypeGraph.resolve_cyclic_iff.mpr endless
        exact ⟨_, resolves⟩
      · exact ⟨_, TypeGraph.resolve_eq_dangling.mpr ⟨⟨steps, reached⟩, absent⟩⟩
    obtain ⟨cause, unresolved⟩ := failed
    refine ⟨cause, unresolved, ?_⟩
    rintro d s ⟨rule, member, own⟩ typed
    have refused := apply_unresolved unresolved member (own ▸ typed) d.params s
    rw [applyOne_forTypedef member own.symm, refused]
    exact ⟨rfl, rfl⟩

theorem rejected_changes_nothing_lasso :
    let declared : AnnotationSet := { (∅ : AnnotationSet) with identifier := some ⟨"kb", []⟩ }
    let again := (identifier labelled ⟨0⟩).apply ["handle"] declared
    let search := applyOne (forTypedef TypeGraph.lasso ⟨0⟩) ⟨"searchable", "ws_subset a"⟩ declared
    (.multipleDeclarations ∈ again.rejections ∧ again.rejections = [.multipleDeclarations] ∧
        again.annotations = declared) ∧
      (∀ steps, (TypeGraph.lasso.link? ⟨0⟩ steps).isSome) ∧
      search.rejections = [.unresolved (.cyclic ["M.a", "M.b", "M.c", "M.b"])] ∧
      search.annotations = declared := by
  intro declared again search
  have listed : .multipleDeclarations ∈ again.rejections := by decide +kernel
  have cyclic : TypeGraph.lasso.resolve ⟨0⟩ = .error (.cyclic ["M.a", "M.b", "M.c", "M.b"]) := by
    decide +kernel
  have endless := TypeGraph.resolve_cyclic_iff.mp ⟨_, cyclic⟩
  obtain ⟨rejected, -, astray⟩ := rejected_changes_nothing
  obtain ⟨cause, unresolved, refused⟩ := astray TypeGraph.lasso ⟨0⟩ (.inl endless)
  rw [cyclic] at unresolved
  cases unresolved
  refine ⟨⟨listed, ?_⟩, endless, ?_⟩
  · exact rejected _ (.inl ⟨labelled, ⟨0⟩, by simp [forTypedef]⟩) _ _ _ listed rfl
  · exact refused _ declared ⟨searchable TypeGraph.lasso ⟨0⟩, by simp [forTypedef], rfl⟩ (by decide)

end Rule

end IdlDirectives
