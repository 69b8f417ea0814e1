import IdlDirectives.Selection.Check
import IdlDirectives.Selection.Expression

namespace IdlDirectives

inductive Requirement where
  | struct
  | string
  | number
deriving DecidableEq

def Requirement.describe : Requirement → String
  | .struct => "a structure"
  | .string => "a string"
  | .number => "an int or float"

inductive Referent where
  | type
  | function
deriving DecidableEq

def Referent.describe : Referent → String
  | .type => "Type"
  | .function => "function"

inductive Needed where
  | idType
  | searchContext
  | metadataContext
  | metadataExpression
deriving DecidableEq

def Needed.describe : Needed → String
  | .idType => "an id type"
  | .searchContext => "a context (ws_subset)"
  | .metadataContext => "a context (ws)"
  | .metadataExpression => "an expression after the context"

inductive Rejection where
  | unrecognized
  | typeMismatch (expected : Requirement) (found : BaseType)
  | notDirectStructure (depth : Nat)
  | unknownField (field : String)
  | duplicate (value : String)
  | malformedName (value : String) (expected : Referent)
  | multipleDeclarations
  | missingParameter (what : Needed)
  | unexpectedAttributes (idType : String) (attributes : List String)
  | unknownIdType (idType : String)
  | tooManyCommas (interval : String)
  | emptyRange (interval : String)
  | unsupportedContext (context expected : String)
  | malformedPath (path : String) (cause : ExpressionError)
  | invalidPath (path : String) (cause : SelectionError)
  | metadataRedefinition (name : String)
  | missingMetadataName
  | unresolved (cause : ResolveError)
deriving DecidableEq

namespace Rejection

def message : Rejection → String
  | .unrecognized => "is not recognized"
  | .typeMismatch expected found =>
    "can only be applied to " ++ expected.describe ++ ", but the type resolves to " ++ found.describe
  | .notDirectStructure depth =>
    "must be declared on the typedef that defines the structure, not on an alias of it (" ++
      depth.repr ++ " typedef levels deep)"
  | .unknownField field =>
    "refers to field '" ++ field ++ "', which does not exist in the structure"
  | .duplicate value => "lists '" ++ value ++ "' more than once"
  | .malformedName value expected =>
    "has invalid reference '" ++ value ++ "', expected a name of the form Module." ++ expected.describe
  | .multipleDeclarations => "has multiple declarations; only the first declaration is used"
  | .missingParameter what => "requires " ++ what.describe
  | .unexpectedAttributes idType attributes =>
    "id type '" ++ idType ++ "' does not take attributes, but got '" ++ " ".intercalate attributes ++ "'"
  | .unknownIdType idType => "has unrecognized id type '" ++ idType ++ "'"
  | .tooManyCommas interval => "has invalid range '" ++ interval ++ "': more than one ',' separator"
  | .emptyRange interval => "has no bounds in '" ++ interval ++ "'"
  | .unsupportedContext context expected =>
    "has unsupported context '" ++ context ++ "', expected '" ++ expected ++ "'"
  | .malformedPath path cause => "has invalid path '" ++ path ++ "': " ++ cause.message
  | .invalidPath path cause => "selects an invalid path '" ++ path ++ "': " ++ cause.message
  | .metadataRedefinition name => "cannot redefine metadata name '" ++ name ++ "'"
  | .missingMetadataName => "has no metadata name after 'as'"
  | .unresolved cause => "cannot be checked: " ++ cause.message

/-- Whether the directive is rejected as a whole. -/
def isOfDirective : Rejection → Bool
  | .typeMismatch _ _ | .notDirectStructure _ | .multipleDeclarations | .missingParameter _
  | .tooManyCommas _ | .emptyRange _ | .unsupportedContext _ _ | .metadataRedefinition _
  | .missingMetadataName | .unresolved _ => true
  | _ => false

end Rejection

end IdlDirectives
