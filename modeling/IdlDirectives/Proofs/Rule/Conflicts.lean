import IdlDirectives.Proofs.Rule.Accumulation
import IdlDirectives.Proofs.Rule.Metadata
import IdlDirectives.Proofs.Rule.Winner

namespace IdlDirectives

def TypeGraph.StandsFor (g : TypeGraph) (id : TypeId) (type : BaseType) : Prop :=
  ∃ base depth, g.resolve id = .ok ⟨base, type, depth⟩

theorem TypeGraph.standsFor_iff {g : TypeGraph} {id : TypeId} {resolved : Resolved}
    (resolves : g.resolve id = .ok resolved) {type : BaseType} :
    g.StandsFor id type ↔ resolved.type = type := by
  constructor
  · rintro ⟨base, depth, resolves'⟩
    rw [resolves] at resolves'
    cases resolves'
    rfl
  · rintro rfl
    exact ⟨_, _, resolves⟩

theorem BaseType.isNumber_iff {type : BaseType} :
    type.isNumber = true ↔ type = .scalar .int ∨ type = .scalar .float := by
  cases type with
  | scalar kind => cases kind <;> simp [isNumber, ScalarKind.isNumeric]
  | _ => simp [isNumber]

namespace Directive

def Identifies (d : Directive) (value : Identifier) : Prop :=
  d.flag = "id" ∧ d.params = value.type :: value.attributes

def Limits (d : Directive) (b : Bounds) : Prop :=
  d.flag = "range" ∧ Bounds.parse (String.join d.params) = .ok b

end Directive

namespace Rule

open Directive (First Last)

variable {g : TypeGraph} {id : TypeId} {d : Directive} {s : AnnotationSet}

section Identifier

theorem identifier_apply (text : g.StandsFor id (.scalar .string)) (params : List String)
    (s : AnnotationSet) :
    (identifier g id).apply params s =
      if s.identifier.isSome then ⟨s, [.multipleDeclarations]⟩
      else
        match params with
        | [] => ⟨s, [.missingParameter .idType]⟩
        | type :: attributes =>
          ⟨{ s with identifier := some ⟨type, attributes⟩ }, identifierFaults type attributes⟩ := by
  obtain ⟨base, depth, resolves⟩ := text
  cases params with
  | nil => simp only [identifier, resolves, ne_eq, not_true_eq_false, if_false, Outcome.reject]
  | cons type attributes =>
    simp only [identifier, resolves, ne_eq, not_true_eq_false, if_false, Outcome.reject]

theorem identifier_refused (other : ¬ g.StandsFor id (.scalar .string)) (params : List String)
    (s : AnnotationSet) : ((identifier g id).apply params s).annotations = s := by
  simp only [identifier]
  cases resolves : g.resolve id with
  | error cause => rfl
  | ok resolved =>
    rw [TypeGraph.standsFor_iff resolves] at other
    simp only [ne_eq, other, not_false_eq_true, if_true, Outcome.reject]

theorem applyOne_identifier (own : d.flag = "id") (s : AnnotationSet) :
    applyOne (forTypedef g id) d s = (identifier g id).apply d.params s := by
  have member : identifier g id ∈ forTypedef g id := by simp [forTypedef]
  exact applyOne_forTypedef member own s

theorem identifier_step (text : g.StandsFor id (.scalar .string)) (d : Directive) (s : AnnotationSet)
    (value : Identifier) :
    (applyOne (forTypedef g id) d s).annotations.identifier = some value ↔
      s.identifier = some value ∨ s.identifier = none ∧ d.Identifies value := by
  by_cases own : d.flag = "id"
  · rw [applyOne_identifier own, identifier_apply text]
    cases declared : s.identifier with
    | some first => simp [declared]
    | none =>
      cases given : d.params with
      | nil => simp [declared, Directive.Identifies, given]
      | cons type attributes =>
        obtain ⟨type', attributes'⟩ := value
        simp [Directive.Identifies, own, given]
  · have kept : (applyOne (forTypedef g id) d s).annotations.identifier = s.identifier :=
      read_applyOne_apart (forTypedef_local g id) .identifier own s
    simp [kept, Directive.Identifies, own]

end Identifier

section Bounds

theorem bounds_apply (number : g.StandsFor id (.scalar .int) ∨ g.StandsFor id (.scalar .float))
    (params : List String) (s : AnnotationSet) :
    (bounds g id).apply params s =
      match Bounds.parse (String.join params) with
      | .error reason => ⟨s, [reason]⟩
      | .ok bounds => ⟨{ s with bounds := some bounds }, []⟩ := by
  rcases number with ⟨base, depth, resolves⟩ | ⟨base, depth, resolves⟩
  all_goals
    simp only [bounds, resolves]
    rfl

theorem bounds_refused (other : ¬ (g.StandsFor id (.scalar .int) ∨ g.StandsFor id (.scalar .float)))
    (params : List String) (s : AnnotationSet) : ((bounds g id).apply params s).annotations = s := by
  simp only [bounds]
  cases resolves : g.resolve id with
  | error cause => rfl
  | ok resolved =>
    rw [TypeGraph.standsFor_iff resolves, TypeGraph.standsFor_iff resolves, ← BaseType.isNumber_iff,
      Bool.not_eq_true] at other
    simp only [other, Bool.not_false, if_true, Outcome.reject]

theorem applyOne_bounds (own : d.flag = "range") (s : AnnotationSet) :
    applyOne (forTypedef g id) d s = (bounds g id).apply d.params s := by
  have member : bounds g id ∈ forTypedef g id := by simp [forTypedef]
  exact applyOne_forTypedef member own s

theorem bounds_step (number : g.StandsFor id (.scalar .int) ∨ g.StandsFor id (.scalar .float))
    (d : Directive) (s : AnnotationSet) (b : Bounds) :
    (applyOne (forTypedef g id) d s).annotations.bounds = some b ↔
      d.Limits b ∨ (∀ other, ¬ d.Limits other) ∧ s.bounds = some b := by
  by_cases own : d.flag = "range"
  · rw [applyOne_bounds own, bounds_apply number]
    cases read : Bounds.parse (String.join d.params) with
    | error reason => simp [Directive.Limits, read]
    | ok found => simp [Directive.Limits, own, read]
  · have kept : (applyOne (forTypedef g id) d s).annotations.bounds = s.bounds :=
      read_applyOne_apart (forTypedef_local g id) .bounds own s
    simp [kept, Directive.Limits, own]

end Bounds

section Metadata

theorem exists_requireStruct : (∃ fields, g.StandsFor id (.struct fields)) ↔
    ∃ resolved, requireStruct g id = .ok resolved := by
  constructor
  · rintro ⟨fields, base, depth, resolves⟩
    exact ⟨_, requireStruct_eq_ok.mpr ⟨resolves, rfl⟩⟩
  · rintro ⟨⟨base, type, depth⟩, target⟩
    obtain ⟨resolves, struct⟩ := requireStruct_eq_ok.mp target
    cases type with
    | struct fields => exact ⟨fields, base, depth, resolves⟩
    | _ => cases struct

theorem metadata_refused (other : ¬ ∃ fields, g.StandsFor id (.struct fields)) (params : List String)
    (s : AnnotationSet) : ((metadata g id).apply params s).annotations = s := by
  cases target : requireStruct g id with
  | error reason => simp only [metadata, target, Outcome.reject]
  | ok resolved => exact absurd (exists_requireStruct.mpr ⟨resolved, target⟩) other

theorem applyOne_metadata (own : d.flag = "metadata") (s : AnnotationSet) :
    applyOne (forTypedef g id) d s = (metadata g id).apply d.params s := by
  have member : metadata g id ∈ forTypedef g id := by simp [forTypedef]
  exact applyOne_forTypedef member own s

variable (struct : ∃ fields, g.StandsFor id (.struct fields))

include struct

theorem metadata_defines {entry : MetadataEntry} (defined : d.Defines entry) (s : AnnotationSet) :
    applyOne (forTypedef g id) d s =
      if s.metadata.contains entry.name then ⟨s, [.metadataRedefinition entry.name]⟩
      else ⟨{ s with metadata := s.metadata.insert entry.name entry.expression }, []⟩ := by
  obtain ⟨resolved, target⟩ := exists_requireStruct.mp struct
  obtain ⟨own, first, rest, given, read⟩ := Directive.defines_iff.mp defined
  rw [applyOne_metadata own]
  simp only [metadata, target, given, metadataContext, read, ne_eq, not_true_eq_false, if_false,
    Outcome.reject]

theorem metadata_silent (silent : ∀ entry, ¬ d.Defines entry) (s : AnnotationSet) :
    (applyOne (forTypedef g id) d s).annotations.metadata = s.metadata := by
  by_cases own : d.flag = "metadata"
  · obtain ⟨resolved, target⟩ := exists_requireStruct.mp struct
    rw [applyOne_metadata own]
    simp only [metadata, target]
    rcases given : d.params with _ | ⟨context, _ | ⟨first, rest⟩⟩
    · rfl
    · dsimp only
      split
      · rfl
      · rfl
    · dsimp only
      split
      · rfl
      · next known =>
        cases read : MetadataEntry.ofWords first rest with
        | error reason => rfl
        | ok entry =>
          have context : context = "ws" := by simpa [metadataContext] using known
          subst context
          exact absurd (Directive.defines_iff.mpr ⟨own, first, rest, given, read⟩) (silent entry)
  · exact read_applyOne_apart (forTypedef_local g id) .metadata own s

theorem metadata_step (name : String) (d : Directive) (s : AnnotationSet) (expression : String) :
    (applyOne (forTypedef g id) d s).annotations.metadata.get? name = some expression ↔
      s.metadata.get? name = some expression ∨
        s.metadata.get? name = none ∧ d.Defines ⟨name, expression⟩ := by
  by_cases defined : ∃ entry, d.Defines entry
  · obtain ⟨⟨name', expression'⟩, defined⟩ := defined
    have same : d.Defines ⟨name, expression⟩ ↔ name = name' ∧ expression = expression' := by
      constructor
      · intro defined'
        cases defined'.unique defined
        exact ⟨rfl, rfl⟩
      · rintro ⟨rfl, rfl⟩
        exact defined
    rw [same, metadata_defines struct defined]
    by_cases own : name = name'
    · subst own
      cases taken : s.metadata.get? name with
      | some first => simp [NameMap.contains, taken]
      | none => simp [NameMap.contains, taken, NameMap.get?_insert, eq_comm]
    · split
      · simp [own]
      · simp [NameMap.get?_insert, own]
  · have silent : ∀ entry, ¬ d.Defines entry := fun entry here => defined ⟨entry, here⟩
    rw [metadata_silent struct silent]
    simp [silent]

theorem stored_metadata (ds : List Directive) (name expression : String) :
    (applyAll (forTypedef g id) ∅ ds).1.metadata.get? name = some expression ↔
      First (fun d expression => d.Defines ⟨name, expression⟩) ds expression := by
  let held (s : AnnotationSet) : Option String := s.metadata.get? name
  have step : ∀ d s expression, held (applyOne (forTypedef g id) d s).annotations = some expression ↔
      held s = some expression ∨ held s = none ∧ d.Defines ⟨name, expression⟩ :=
    metadata_step struct name
  exact held_applyAll_first step ds rfl expression

end Metadata

/-- The first identifier counts and the last bounds, and for each metadata name the first expression. A
directive that comes too late, or bounds that cannot be read, change nothing and give exactly one warning. -/
theorem conflicts_settled (g : TypeGraph) (id : TypeId) (ds : List Directive) :
    let stored := (applyAll (forTypedef g id) ∅ ds).1
    ((g.StandsFor id (.scalar .string) →
        (∀ value, stored.identifier = some value ↔ First Directive.Identifies ds value) ∧
          ∀ d, d.flag = "id" → (∃ earlier ∈ ds, ∃ value, earlier.Identifies value) →
            applyOne (forTypedef g id) d stored = ⟨stored, [.multipleDeclarations]⟩) ∧
        (¬ g.StandsFor id (.scalar .string) → stored.identifier = none)) ∧
      ((g.StandsFor id (.scalar .int) ∨ g.StandsFor id (.scalar .float) →
          (∀ b, stored.bounds = some b ↔ Last Directive.Limits ds b) ∧
            ∀ d reason, d.flag = "range" → Bounds.parse (String.join d.params) = .error reason →
              applyOne (forTypedef g id) d stored = ⟨stored, [reason]⟩) ∧
        (¬ (g.StandsFor id (.scalar .int) ∨ g.StandsFor id (.scalar .float)) → stored.bounds = none)) ∧
      (((∃ fields, g.StandsFor id (.struct fields)) →
          (∀ name expression, stored.metadata.get? name = some expression ↔
            First (fun d expression => d.Defines ⟨name, expression⟩) ds expression) ∧
            ∀ d entry, d.Defines entry →
              (∃ earlier ∈ ds, ∃ expression, earlier.Defines ⟨entry.name, expression⟩) →
              applyOne (forTypedef g id) d stored = ⟨stored, [.metadataRedefinition entry.name]⟩) ∧
        ((¬ ∃ fields, g.StandsFor id (.struct fields)) → stored.metadata = ∅)) ∧
      ∀ (d : Directive) entry, d.Defines entry → entry.name ≠ "" ∧ entry.expression ≠ "" := by
  intro stored
  refine ⟨⟨fun text => ⟨?_, ?_⟩, fun other => ?_⟩, ⟨fun number => ⟨?_, ?_⟩, fun other => ?_⟩,
    ⟨fun struct => ⟨?_, ?_⟩, fun other => ?_⟩, fun d entry => Directive.Defines.nonempty⟩
  · exact held_applyAll_first (identifier_step text) ds rfl
  · intro d own earlier
    obtain ⟨value, first⟩ := Directive.exists_first earlier
    have declared : stored.identifier = some value :=
      (held_applyAll_first (identifier_step text) ds rfl value).mpr first
    rw [applyOne_identifier own, identifier_apply text, declared]
    rfl
  · exact read_applyAll_refused (forTypedef_local g id) .identifier
      (fun d s own => by rw [applyOne_identifier own, identifier_refused other]) ds ∅
  · intro b
    have last : stored.bounds = some b ↔
        Last Directive.Limits ds b ∨ (∀ d ∈ ds, ∀ other, ¬ d.Limits other) ∧ none = some b :=
      held_applyAll_last (bounds_step number) ds ∅ b
    simpa using last
  · intro d reason own failed
    rw [applyOne_bounds own, bounds_apply number, failed]
  · exact read_applyAll_refused (forTypedef_local g id) .bounds
      (fun d s own => by rw [applyOne_bounds own, bounds_refused other]) ds ∅
  · exact stored_metadata struct ds
  · intro d entry defined earlier
    obtain ⟨value, first⟩ := Directive.exists_first earlier
    have declared : stored.metadata.get? entry.name = some value :=
      (stored_metadata struct ds entry.name value).mpr first
    have taken : stored.metadata.contains entry.name = true := by rw [NameMap.contains, declared]; rfl
    rw [metadata_defines struct defined, if_pos taken]
  · exact read_applyAll_refused (forTypedef_local g id) .metadata
      (fun d s own => by rw [applyOne_metadata own, metadata_refused other]) ds ∅

def measuredAs (name : String) (target : TypeId) : Node :=
  let declared : Typedef := ⟨"M", name, "", target⟩
  ⟨(.typedef declared), none⟩

def measured : TypeGraph where
  nodes :=
    #[⟨.base (.scalar .string), none⟩, ⟨.base (.scalar .int), none⟩,
      ⟨.base (.struct [⟨"unit", ⟨0⟩⟩, ⟨"value", ⟨1⟩⟩]), none⟩, measuredAs "Unit" ⟨0⟩,
      measuredAs "Value" ⟨1⟩, measuredAs "Measure" ⟨2⟩]
  table := ∅

theorem conflicts_settled_measured :
    let ds : List Directive :=
      [⟨"id", ""⟩, ⟨"range", "[0,"⟩, ⟨"metadata", "ws"⟩, ⟨"id", "ws M.T"⟩, ⟨"range", "(1, 9]"⟩,
        ⟨"metadata", "ws unit AS Size"⟩, ⟨"range", "1,2,3"⟩, ⟨"metadata", "ws value as"⟩]
    let stored (id : TypeId) := (applyAll (forTypedef measured id) ∅ ds).1
    ((stored ⟨3⟩).identifier = some ⟨"ws", ["M.T"]⟩ ∧
        applyOne (forTypedef measured ⟨3⟩) ⟨"id", "kb"⟩ (stored ⟨3⟩) =
          ⟨stored ⟨3⟩, [.multipleDeclarations]⟩ ∧ (stored ⟨4⟩).identifier = none) ∧
      ((stored ⟨4⟩).bounds = some ⟨some "1", some true, some "9", some false⟩ ∧
        applyOne (forTypedef measured ⟨4⟩) ⟨"range", ","⟩ (stored ⟨4⟩) =
          ⟨stored ⟨4⟩, [.emptyRange ","]⟩ ∧ (stored ⟨5⟩).bounds = none) ∧
      (stored ⟨5⟩).metadata.get? "Size" = some "unit" ∧
      applyOne (forTypedef measured ⟨5⟩) ⟨"metadata", "ws value as Size"⟩ (stored ⟨5⟩) =
        ⟨stored ⟨5⟩, [.metadataRedefinition "Size"]⟩ ∧
      (stored ⟨3⟩).metadata = ∅ := by
  intro ds stored
  have unit : measured.resolve ⟨3⟩ = .ok ⟨⟨0⟩, .scalar .string, 1⟩ := by decide +kernel
  have value : measured.resolve ⟨4⟩ = .ok ⟨⟨1⟩, .scalar .int, 1⟩ := by decide +kernel
  have measure : measured.resolve ⟨5⟩ =
      .ok ⟨⟨2⟩, .struct [⟨"unit", ⟨0⟩⟩, ⟨"value", ⟨1⟩⟩], 1⟩ := by decide +kernel
  obtain ⟨⟨identifiers, -⟩, ⟨-, unbounded⟩, ⟨-, unnamed⟩, -⟩ := conflicts_settled measured ⟨3⟩ ds
  obtain ⟨⟨-, anonymous⟩, ⟨limits, -⟩, -, -⟩ := conflicts_settled measured ⟨4⟩ ds
  obtain ⟨-, ⟨-, unlimited⟩, ⟨names, -⟩, -⟩ := conflicts_settled measured ⟨5⟩ ds
  obtain ⟨identifier, refused⟩ := identifiers ⟨_, _, unit⟩
  obtain ⟨bounds, unread⟩ := limits (.inl ⟨_, _, value⟩)
  obtain ⟨entries, late⟩ := names ⟨_, _, _, measure⟩
  have given : Directive.Identifies ⟨"id", "ws M.T"⟩ ⟨"ws", ["M.T"]⟩ := ⟨rfl, by decide +kernel⟩
  have sized : Directive.Defines ⟨"metadata", "ws unit AS Size"⟩ ⟨"Size", "unit"⟩ :=
    Directive.defines_iff.mpr ⟨rfl, "unit", ["AS", "Size"], by decide +kernel, by decide +kernel⟩
  have resized : Directive.Defines ⟨"metadata", "ws value as Size"⟩ ⟨"Size", "value"⟩ :=
    Directive.defines_iff.mpr ⟨rfl, "value", ["as", "Size"], by decide +kernel, by decide +kernel⟩
  have empty : ∀ earlier ∈ ds.take 3, earlier.flag = "id" → earlier.params = [] := by decide +kernel
  have unreadable : ∀ later ∈ ds.drop 5, later.flag = "range" →
      (Bounds.parse (String.join later.params)).toOption = none := by decide +kernel
  have bare : ∀ earlier ∈ ds.take 5, earlier.flag = "metadata" → earlier.params = ["ws"] := by
    decide +kernel
  refine ⟨⟨?_, ?_, anonymous ?_⟩, ⟨?_, ?_, unlimited ?_⟩, ?_, ?_, unnamed ?_⟩
  · refine (identifier _).mpr ⟨ds.take 3, _, ds.drop 4, rfl, given, ?_⟩
    rintro earlier member other ⟨own, params⟩
    rw [empty earlier member own] at params
    cases params
  · exact refused _ rfl ⟨_, by simp [ds], _, given⟩
  · simp [TypeGraph.standsFor_iff value]
  · refine (bounds _).mpr ⟨ds.take 4, _, ds.drop 5, rfl, ⟨rfl, by decide +kernel⟩, ?_⟩
    rintro later member other ⟨own, read⟩
    have failed := unreadable later member own
    rw [read] at failed
    cases failed
  · exact unread _ _ rfl (by decide +kernel)
  · simp [TypeGraph.standsFor_iff measure]
  · refine (entries _ _).mpr ⟨ds.take 5, _, ds.drop 6, rfl, sized, ?_⟩
    intro earlier member other defined
    obtain ⟨own, first, rest, params, -⟩ := Directive.defines_iff.mp defined
    rw [bare earlier member own] at params
    cases params
  · exact late _ _ resized ⟨_, by simp [ds], _, sized⟩
  · simp [TypeGraph.standsFor_iff unit]

end Rule

end IdlDirectives
