import IdlDirectives.Format.Annotations
import IdlDirectives.Types.Basic

namespace IdlDirectives

open Json (Record)

namespace TypeId

def toJson (id : TypeId) : Json :=
  .integer (.ofNat id.number.toNat)

def ofJson? : Json → Option TypeId
  | .integer (.ofNat n) => if n < UInt32.size then some ⟨n.toUInt32⟩ else none
  | _ => none

end TypeId

namespace ScalarKind

def toJson (kind : ScalarKind) : Json :=
  .text kind.name

def ofName? (name : String) : Option ScalarKind :=
  all.find? (·.name = name)

def ofJson? : Json → Option ScalarKind
  | .text name => ofName? name
  | .object [(name, .null)] => ofName? name
  | _ => none

/-- In a node, an empty object counts as null. -/
def ofPart? : Json → Option ScalarKind
  | .object [(name, .object [])] => ofName? name
  | v => ofJson? v

end ScalarKind

namespace Field

def toJson (f : Field) : Json :=
  .object [("name", .text f.name), ("type", f.type.toJson)]

def ofJson? (v : Json) : Option Field := do
  let r ← v.record? ["name", "type"]
  return {
    name := ← r.required? "name" Json.asText?
    type := ← r.required? "type" TypeId.ofJson? }

end Field

namespace Shape

def kind : Shape → String
  | .base (.scalar _) => "scalar"
  | .base (.struct _) => "struct"
  | .base (.list _) => "list"
  | .base (.mapping _ _) => "mapping"
  | .base (.tuple _) => "tuple"
  | .typedef _ => "typedef"
  | .base .unspecifiedObject => "unspecified_object"

def kinds : List String :=
  ["scalar", "struct", "list", "mapping", "tuple", "typedef", "unspecified_object"]

def toMembers : Shape → List (String × Json)
  | .base (.scalar kind) => [("scalar", kind.toJson)]
  | .base (.struct fields) => [("fields", .array (fields.map Field.toJson))]
  | .base (.list element) => [("element", element.toJson)]
  | .base (.mapping key value) => [("key", key.toJson), ("value", value.toJson)]
  | .base (.tuple elements) => [("elements", .array (elements.map TypeId.toJson))]
  | .typedef definition =>
    [("module", .text definition.module), ("name", .text definition.name),
      ("comment", .text definition.comment), ("alias", definition.target.toJson)]
  | .base .unspecifiedObject => []

/-- The kind that is given by its name or by its place among the kinds. -/
def kindOfJson? : Json → Option String
  | .text name => if name ∈ kinds then some name else none
  | .integer (.ofNat n) => kinds[n]?
  | _ => none

def ofMembers? (kind : String) (members : List (String × Json)) : Option Shape :=
  let parts (names : List String) := Json.recordOfMembers? names members
  match kind with
  | "scalar" => do
    let r ← parts ["scalar"]
    return .base (.scalar (← r.required? "scalar" ScalarKind.ofPart?))
  | "struct" => do
    let r ← parts ["fields"]
    return .base (.struct (← r.required? "fields" (Json.asList? Field.ofJson?)))
  | "list" => do
    let r ← parts ["element"]
    return .base (.list (← r.required? "element" TypeId.ofJson?))
  | "mapping" => do
    let r ← parts ["key", "value"]
    return .base (.mapping (← r.required? "key" TypeId.ofJson?) (← r.required? "value" TypeId.ofJson?))
  | "tuple" => do
    let r ← parts ["elements"]
    return .base (.tuple (← r.required? "elements" (Json.asList? TypeId.ofJson?)))
  | "typedef" => do
    let r ← parts ["module", "name", "comment", "alias"]
    return .typedef {
      module := ← r.required? "module" Json.asText?
      name := ← r.required? "name" Json.asText?
      comment := ← r.withDefault? "comment" Json.asText? ""
      target := ← r.required? "alias" TypeId.ofJson? }
  | "unspecified_object" => some (.base .unspecifiedObject)
  | _ => none

end Shape

namespace Node

def toJson (n : Node) : Json :=
  .object (("kind", .text n.shape.kind) :: n.shape.toMembers ++
    Json.optionalMember "annotations" AnnotationSet.toJson n.annotations)

def typeMembers (members : List (String × Json)) : List (String × Json) :=
  members.filter (·.1 ≠ "annotations")

def ofJson? : Json → Option Node
  | .object members => do
    if !Json.haveReadable (typeMembers members) then none
    else
      let r ← Json.recordOfMembers? ["kind", "annotations"] members
      let kind ← r.required? "kind" Shape.kindOfJson?
      return {
        shape := ← Shape.ofMembers? kind (typeMembers members)
        annotations := ← r.optional? "annotations" AnnotationSet.ofJson? }
  | _ => none

end Node

namespace TypeGraph

def toJson (g : TypeGraph) : Json :=
  .object [
    ("nodes", .array (g.nodes.toList.map Node.toJson)),
    ("table", Json.ofMap (Json.ofMap TypeId.toJson) g.table)]

def ofJson? (v : Json) : Option TypeGraph := do
  let r ← v.record? ["nodes", "table"]
  return {
    nodes := (← r.required? "nodes" (Json.asList? Node.ofJson?)).toArray
    table := ← r.withDefault? "table" (Json.asMap? (Json.asMap? TypeId.ofJson?)) ∅ }

end TypeGraph

end IdlDirectives
