import IdlDirectives.Proofs.Check.Aliases
import IdlDirectives.Proofs.Expression.Progress
import IdlDirectives.Proofs.Report.Quoted
import IdlDirectives.Proofs.Rule.Rejections
import IdlDirectives.Proofs.Rule.SearchPaths

namespace IdlDirectives

open Text

namespace TypeGraph

variable {g : TypeGraph} {id : TypeId}

theorem NamesUnbroken.typedef (names : g.NamesUnbroken) {definition : Typedef}
    (found : g.shape? id = some (.typedef definition)) :
    Unbroken definition.module ∧ Unbroken definition.name := by
  obtain ⟨node, there, shape⟩ := Option.map_eq_some_iff.mp found
  have here : node.shape.NamesUnbroken := names node (Array.mem_of_getElem? there)
  rwa [shape] at here

theorem quoted_of_resolve (names : g.NamesUnbroken) {cause : ResolveError}
    (failed : g.resolve id = .error cause) : ∀ text ∈ cause.quoted, Unbroken text := by
  intro text quoted
  cases cause with
  | cyclic chain =>
    obtain ⟨passed, again, definitions, -, -, typedefs, rfl⟩ := resolve_cyclic failed
    obtain ⟨definition, member, rfl⟩ := List.mem_map.mp quoted
    have listed : some definition ∈ (passed ++ [again]).map g.typedef? := by
      rw [typedefs]
      exact List.mem_map_of_mem member
    obtain ⟨other, -, found⟩ := List.mem_map.mp listed
    exact qualified_unbroken (names.typedef (typedef?_eq_some.mp found))
  | dangling => cases quoted

theorem quoted_of_structureName (names : g.NamesUnbroken) {path : List String}
    (each : ∀ selector ∈ path, Unbroken selector) :
    ∀ text ∈ (g.structureName id path).quoted, Unbroken text := by
  unfold structureName
  split
  · next found => simpa [StructureName.quoted] using names.typedef found
  · exact each

theorem quoted_of_check (names : g.NamesUnbroken) {ofKeys : Bool} {s : Selection}
    (each : ∀ path, s.Contains path → ∀ selector ∈ path, Unbroken selector) {cause : SelectionError}
    (failed : g.check ofKeys id s = .error cause) : ∀ text ∈ cause.quoted, Unbroken text := by
  obtain ⟨path, before, after, walk, offence, -⟩ := check_eq_error.mp failed
  have there : s.Contains path := by
    rw [← Selection.mem_walk, walk]
    simp
  have selectors := each path there
  cases offence with
  | node _ _ fault =>
    cases fault with
    | unresolved unresolved => exact quoted_of_resolve names unresolved
    | keysOfNonMapping => exact selectors
  | @selector path node _ selector _ found _ fault =>
    obtain ⟨above, own⟩ := List.forall_mem_append.mp selectors
    have own : Unbroken selector := List.forall_mem_singleton.mp own
    cases fault with
    | unknownField => exact List.forall_mem_cons.mpr ⟨own, quoted_of_structureName names above⟩
    | notListSelector => exact List.forall_mem_cons.mpr ⟨own, above⟩
    | notMappingSelector => exact List.forall_mem_cons.mpr ⟨own, above⟩
    | unsupported =>
      refine List.forall_mem_append.mpr ⟨above, fun other listed => ?_⟩
      exact each _ ((Selection.contains_snoc found).mpr listed) other (by simp)

end TypeGraph

theorem Expression.selectors_unbroken {param : String} {s : Selection} (unbroken : Unbroken param)
    (read : parse (unwrapKeys param).1 = .ok s) {path : List String} (there : s.Contains path) :
    ∀ selector ∈ path, Unbroken selector := by
  intro selector member broken
  exact unbroken (unwrapKeys_subset param (selectors_subset read there selector member broken))

namespace Rule

variable {g : TypeGraph} {id : TypeId} {params : List String} {s : AnnotationSet}

theorem keepNames_legible {objection? : List String → String → Option Rejection}
    (each : ∀ kept name reason, objection? kept name = some reason → reason.quoted = [name])
    (unbroken : ∀ param ∈ params, Unbroken param) (kept : List String) :
    ∀ reason ∈ (keepNames objection? kept params).2, reason.Legible := by
  intro reason listed
  obtain ⟨kept', name, member, objected⟩ := exists_objection listed
  rw [Rejection.Legible, each kept' name reason objected, List.forall_mem_singleton]
  exact unbroken name member

theorem quoted_of_objection {referent : Referent} {kept : List String} {name : String}
    {reason : Rejection} (objected : (unqualified? referent name <|> repeated? kept name) = some reason) :
    reason.quoted = [name] := by
  rcases malformed_or_duplicate objected with rfl | rfl
  · rfl
  · rfl

theorem legible_of_requireStruct (names : g.NamesUnbroken) {reason : Rejection}
    (failed : requireStruct g id = .error reason) : reason.Legible := by
  unfold requireStruct at failed
  split at failed
  · next unresolved =>
    cases failed
    exact TypeGraph.quoted_of_resolve names unresolved
  · split at failed
    · cases failed
    · cases failed
      exact List.forall_mem_nil _

/-- A directive on one line gets no warning that takes more. -/
def Legible (rule : Rule) : Prop :=
  ∀ params s, (∀ param ∈ params, Unbroken param) →
    ∀ reason ∈ (rule.apply params s).rejections, reason.Legible

theorem legible_reject {reason : Rejection} (legible : reason.Legible) :
    ∀ other ∈ (Outcome.reject s reason).rejections, other.Legible :=
  List.forall_mem_singleton.mpr legible

theorem legible_of_nil {reason : Rejection} (fixed : reason.quoted = []) : reason.Legible := by
  rw [Rejection.Legible, fixed]
  exact List.forall_mem_nil _

theorem legible_context {context expected : String} (own : Unbroken context) (fixed : Unbroken expected) :
    (Rejection.unsupportedContext context expected).Legible :=
  List.forall_mem_cons.mpr ⟨own, List.forall_mem_singleton.mpr fixed⟩

theorem optional_legible (names : g.NamesUnbroken) : (optional g id).Legible := by
  intro params s unbroken
  simp only [optional]
  cases target : requireStruct g id with
  | error reason => exact legible_reject (legible_of_requireStruct names target)
  | ok resolved =>
    dsimp only
    split
    · exact legible_reject (legible_of_nil rfl)
    · refine keepNames_legible (fun kept name reason objected => ?_) unbroken s.optional
      split at objected
      · cases objected
        rfl
      · rw [eq_duplicate objected]
        rfl

theorem deprecatedType_legible : deprecatedType.Legible := fun _ _ unbroken =>
  keepNames_legible (fun _ _ _ => quoted_of_objection) unbroken _

theorem deprecatedFunction_legible : deprecatedFunction.Legible := by
  intro params s unbroken
  refine keepNames_legible (fun kept name reason objected => ?_) unbroken _
  rw [eq_malformedName objected]
  rfl

theorem identifierFaults_legible {type : String} {attributes : List String} (own : Unbroken type)
    (unbroken : ∀ text ∈ attributes, Unbroken text) :
    ∀ reason ∈ identifierFaults type attributes, reason.Legible := by
  unfold identifierFaults
  split
  · split
    · exact List.forall_mem_nil _
    · exact List.forall_mem_singleton.mpr (List.forall_mem_cons.mpr ⟨own, unbroken⟩)
  · split
    · exact List.forall_mem_nil _
    · split
      · exact keepNames_legible (fun _ _ _ => quoted_of_objection) unbroken []
      · exact List.forall_mem_singleton.mpr (List.forall_mem_singleton.mpr own)

theorem identifier_legible (names : g.NamesUnbroken) : (identifier g id).Legible := by
  intro params s unbroken
  simp only [identifier]
  cases resolves : g.resolve id with
  | error cause => exact legible_reject (TypeGraph.quoted_of_resolve names resolves)
  | ok resolved =>
    dsimp only
    split
    · exact legible_reject (legible_of_nil rfl)
    · split
      · exact legible_reject (legible_of_nil rfl)
      · cases params with
        | nil => exact legible_reject (legible_of_nil rfl)
        | cons type attributes =>
          obtain ⟨own, unbroken⟩ := List.forall_mem_cons.mp unbroken
          exact identifierFaults_legible own unbroken

theorem bounds_legible (names : g.NamesUnbroken) : (bounds g id).Legible := by
  intro params s unbroken
  simp only [bounds]
  cases resolves : g.resolve id with
  | error cause => exact legible_reject (TypeGraph.quoted_of_resolve names resolves)
  | ok resolved =>
    dsimp only
    split
    · exact legible_reject (legible_of_nil rfl)
    · cases read : Bounds.parse (String.join params) with
      | error reason =>
        have interval : Unbroken (String.join params) := unbroken_join unbroken
        refine legible_reject ?_
        rcases Bounds.parse_error_cases read with rfl | rfl
        · exact List.forall_mem_singleton.mpr interval
        · exact List.forall_mem_singleton.mpr interval
      | ok b => exact List.forall_mem_nil _

theorem searchFault?_legible (names : g.NamesUnbroken) {param : String} (unbroken : Unbroken param)
    {reason : Rejection} (fault : searchFault? g id param = some reason) : reason.Legible := by
  have judged := judged_searchFault? g id param
  rw [fault] at judged
  cases judged with
  | malformed => exact List.forall_mem_singleton.mpr unbroken
  | invalid read misfit =>
    refine List.forall_mem_cons.mpr ⟨unbroken, TypeGraph.quoted_of_check names ?_ misfit⟩
    exact fun path there => Expression.selectors_unbroken unbroken read there

theorem searchable_legible (names : g.NamesUnbroken) : (searchable g id).Legible := by
  intro params s unbroken
  simp only [searchable]
  cases target : requireStruct g id with
  | error reason => exact legible_reject (legible_of_requireStruct names target)
  | ok resolved =>
    cases params with
    | nil => exact legible_reject (legible_of_nil rfl)
    | cons context paths =>
      obtain ⟨own, unbroken⟩ := List.forall_mem_cons.mp unbroken
      dsimp only
      split
      · exact legible_reject (legible_context own (by decide))
      · intro reason listed
        obtain ⟨param, member, fault⟩ := List.mem_filterMap.mp listed
        exact searchFault?_legible names (unbroken param member) fault

theorem entry_unbroken {first : String} {rest : List String} {entry : MetadataEntry}
    (unbroken : ∀ word ∈ first :: rest, Unbroken word)
    (read : MetadataEntry.ofWords first rest = .ok entry) : Unbroken entry.name := by
  rcases MetadataEntry.exists_split rest with unmarked | ⟨before, mark, name, rfl, unmarked, marks⟩
  · rw [MetadataEntry.ofWords_unmarked first unmarked] at read
    cases read
    exact unbroken_join unbroken
  · rw [MetadataEntry.ofWords_marked first unmarked marks] at read
    split at read
    · cases read
    · cases read
      exact unbroken_intercalate (by decide) (fun word member => unbroken word (by simp [member]))

theorem metadata_legible (names : g.NamesUnbroken) : (metadata g id).Legible := by
  intro params s unbroken
  simp only [metadata]
  cases target : requireStruct g id with
  | error reason => exact legible_reject (legible_of_requireStruct names target)
  | ok resolved =>
    rcases params with _ | ⟨context, words⟩
    · exact legible_reject (legible_of_nil rfl)
    · obtain ⟨own, unbroken⟩ := List.forall_mem_cons.mp unbroken
      dsimp only
      split
      · exact legible_reject (legible_context own (by decide))
      · rcases words with _ | ⟨first, rest⟩
        · exact legible_reject (legible_of_nil rfl)
        · cases read : MetadataEntry.ofWords first rest with
          | error reason =>
            obtain rfl := MetadataEntry.ofWords_eq_error read
            simp only [read]
            exact legible_reject (legible_of_nil rfl)
          | ok entry =>
            simp only [read]
            split
            · exact legible_reject (List.forall_mem_singleton.mpr (entry_unbroken unbroken read))
            · exact List.forall_mem_nil _

theorem forTypedef_legible (names : g.NamesUnbroken) : ∀ rule ∈ forTypedef g id, rule.Legible := by
  intro rule member
  rcases mem_forTypedef member with rfl | rfl | rfl | rfl | rfl | rfl
  · exact optional_legible names
  · exact deprecatedType_legible
  · exact identifier_legible names
  · exact bounds_legible names
  · exact searchable_legible names
  · exact metadata_legible names

theorem forFunction_legible : ∀ rule ∈ forFunction, rule.Legible :=
  List.forall_mem_singleton.mpr deprecatedFunction_legible

theorem applyOne_legible {rules : List Rule} (each : ∀ rule ∈ rules, rule.Legible) (d : Directive)
    (s : AnnotationSet) : ∀ reason ∈ (applyOne rules d s).rejections, reason.Legible := by
  unfold applyOne
  split
  · next found => exact each _ (List.mem_of_find?_eq_some found) d.params s d.params_unbroken
  · exact List.forall_mem_singleton.mpr (legible_of_nil rfl)

theorem applyAll_legible {rules : List Rule} (each : ∀ rule ∈ rules, rule.Legible) {ds : List Directive}
    (flags : ∀ d ∈ ds, Unbroken d.flag) (s : AnnotationSet) :
    ∀ warning ∈ (applyAll rules s ds).2, Unbroken warning.flag ∧ warning.reason.Legible := by
  induction ds generalizing s with
  | nil => exact List.forall_mem_nil _
  | cons d rest ih =>
    obtain ⟨own, flags⟩ := List.forall_mem_cons.mp flags
    refine List.forall_mem_append.mpr ⟨?_, ih flags _⟩
    intro warning listed
    obtain ⟨reason, member, rfl⟩ := List.mem_map.mp listed
    exact ⟨own, applyOne_legible each d s reason member⟩

end Rule

end IdlDirectives
