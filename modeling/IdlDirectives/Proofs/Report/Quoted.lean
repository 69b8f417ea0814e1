import IdlDirectives.Report
import IdlDirectives.Proofs.Text.Lines

namespace IdlDirectives

open Text

def Shape.NamesUnbroken : Shape → Prop
  | .base _ => True
  | .typedef definition => Unbroken definition.module ∧ Unbroken definition.name

instance (shape : Shape) : Decidable shape.NamesUnbroken :=
  match shape with
  | .base _ => inferInstanceAs (Decidable True)
  | .typedef _ => inferInstanceAs (Decidable (_ ∧ _))

def TypeGraph.NamesUnbroken (g : TypeGraph) : Prop :=
  ∀ node ∈ g.nodes, node.shape.NamesUnbroken

instance (g : TypeGraph) : Decidable g.NamesUnbroken :=
  inferInstanceAs (Decidable (∀ node ∈ g.nodes, _))

theorem qualified_unbroken {module name : String} (unbroken : Unbroken module ∧ Unbroken name) :
    Unbroken (qualified module name) := by
  simp only [qualified, unbroken_append, unbroken.1, unbroken.2, true_and, and_true]
  decide

theorem BaseType.describe_unbroken (type : BaseType) : Unbroken type.describe := by
  cases type with
  | scalar kind => cases kind <;> decide
  | _ =>
    simp only [describe.eq_def]
    decide

namespace ResolveError

def quoted : ResolveError → List String
  | .cyclic chain => chain
  | .dangling _ => []

-- here and below a message is opened by its equation as a whole: those for single cases take Lean too long
theorem message_unbroken {cause : ResolveError} (each : ∀ text ∈ cause.quoted, Unbroken text) :
    Unbroken cause.message := by
  cases cause with
  | cyclic chain =>
    have names : Unbroken (" -> ".intercalate chain) := unbroken_intercalate (by decide) each
    simp only [message.eq_def, unbroken_append, names, and_true]
    decide
  | dangling id =>
    simp only [message.eq_def, unbroken_append, unbroken_repr, and_true]
    decide

end ResolveError

theorem ExpressionError.message_unbroken (cause : ExpressionError) : Unbroken cause.message := by
  cases cause with
  | unmatchedOpen => decide
  | _ =>
    simp only [message.eq_def, unbroken_append, unbroken_repr, and_true]
    decide

def StructureName.quoted : StructureName → List String
  | .declared module name => [module, name]
  | .reached path => path

theorem shownPath_unbroken {path : List String} (each : ∀ selector ∈ path, Unbroken selector) :
    Unbroken (shownPath path) := by
  unfold shownPath
  dsimp only
  split
  · decide
  · exact dotted_unbroken each

theorem StructureName.text_unbroken {name : StructureName} (each : ∀ text ∈ name.quoted, Unbroken text) :
    Unbroken name.text := by
  cases name with
  | declared module name =>
    exact qualified_unbroken ⟨each module (by simp [quoted]), each name (by simp [quoted])⟩
  | reached path =>
    have shown : Unbroken (shownPath path) := shownPath_unbroken each
    simp only [text, unbroken_append, shown, and_true]
    decide

namespace SelectionError

def quoted : SelectionError → List String
  | .keysOfNonMapping path _ => path
  | .unknownField field within => field :: within.quoted
  | .notListSelector path selector | .notMappingSelector path selector => selector :: path
  | .unsupported path selectors _ => path ++ selectors
  | .unresolved cause => cause.quoted

theorem message_unbroken {cause : SelectionError} (each : ∀ text ∈ cause.quoted, Unbroken text) :
    Unbroken cause.message := by
  cases cause with
  | keysOfNonMapping path found =>
    have shown : Unbroken (shownPath path) := shownPath_unbroken each
    simp only [message.eq_def, unbroken_append, shown, found.describe_unbroken, and_true]
    decide
  | unknownField field within =>
    obtain ⟨own, within⟩ := List.forall_mem_cons.mp each
    simp only [message.eq_def, unbroken_append, own, StructureName.text_unbroken within, and_true]
    decide
  | notListSelector path selector =>
    obtain ⟨own, path⟩ := List.forall_mem_cons.mp each
    simp only [message.eq_def, unbroken_append, own, shownPath_unbroken path, and_true]
    decide
  | notMappingSelector path selector =>
    obtain ⟨own, path⟩ := List.forall_mem_cons.mp each
    simp only [message.eq_def, unbroken_append, own, shownPath_unbroken path, and_true]
    decide
  | unsupported path selectors found =>
    obtain ⟨path, selectors⟩ := List.forall_mem_append.mp each
    have listed := unbroken_intercalate (by decide : Unbroken ", ") selectors
    simp only [message.eq_def, unbroken_append, listed, shownPath_unbroken path, found.describe_unbroken,
      and_true]
    decide
  | unresolved cause => exact cause.message_unbroken each

end SelectionError

namespace Rejection

def quoted : Rejection → List String
  | .unknownField text | .duplicate text | .malformedName text _ | .unknownIdType text
  | .tooManyCommas text | .emptyRange text | .malformedPath text _ | .metadataRedefinition text => [text]
  | .unsupportedContext context expected => [context, expected]
  | .unexpectedAttributes idType attributes => idType :: attributes
  | .invalidPath path cause => path :: cause.quoted
  | .unresolved cause => cause.quoted
  | .unrecognized | .typeMismatch _ _ | .notDirectStructure _ | .multipleDeclarations
  | .missingParameter _ | .missingMetadataName => []

def Legible (reason : Rejection) : Prop :=
  ∀ text ∈ reason.quoted, Unbroken text

theorem Legible.message_unbroken {reason : Rejection} (legible : reason.Legible) :
    Unbroken reason.message := by
  cases reason with
  | typeMismatch expected found =>
    have fixed : Unbroken expected.describe := by cases expected <;> decide
    simp only [message.eq_def, unbroken_append, fixed, found.describe_unbroken, and_true]
    decide
  | malformedName text expected =>
    have fixed : Unbroken expected.describe := by cases expected <;> decide
    have own : Unbroken text := List.forall_mem_singleton.mp legible
    simp only [message.eq_def, unbroken_append, own, fixed, and_true]
    decide
  | missingParameter what => cases what <;> decide
  | unexpectedAttributes idType attributes =>
    obtain ⟨own, attributes⟩ := List.forall_mem_cons.mp legible
    have listed := unbroken_intercalate (by decide : Unbroken " ") attributes
    simp only [message.eq_def, unbroken_append, own, listed, and_true]
    decide
  | malformedPath path cause =>
    have own : Unbroken path := List.forall_mem_singleton.mp legible
    simp only [message.eq_def, unbroken_append, own, cause.message_unbroken, and_true]
    decide
  | invalidPath path cause =>
    obtain ⟨own, cause⟩ := List.forall_mem_cons.mp legible
    simp only [message.eq_def, unbroken_append, own, SelectionError.message_unbroken cause, and_true]
    decide
  | unresolved cause =>
    simp only [message.eq_def, unbroken_append, ResolveError.message_unbroken legible, and_true]
    decide
  | notDirectStructure depth =>
    simp only [message.eq_def, unbroken_append, unbroken_repr, and_true]
    decide
  | unsupportedContext context expected =>
    have own : Unbroken context ∧ Unbroken expected := by simpa [Legible, quoted] using legible
    simp only [message.eq_def, unbroken_append, own, and_true]
    decide
  | unrecognized | multipleDeclarations | missingMetadataName => decide
  | unknownField text | duplicate text | unknownIdType text | tooManyCommas text | emptyRange text
  | metadataRedefinition text =>
    have own : Unbroken text := List.forall_mem_singleton.mp legible
    simp only [message.eq_def, unbroken_append, own, and_true]
    decide

end Rejection

end IdlDirectives
