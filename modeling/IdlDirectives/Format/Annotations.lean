import IdlDirectives.AnnotationSet
import IdlDirectives.Json.Record

namespace IdlDirectives

open Json (Record)

namespace Branches

def toMembers : Branches → List (String × Json)
  | .none => []
  | .branch selector below others => (selector, .object below.toMembers) :: others.toMembers

end Branches

namespace Selection

def toJson (s : Selection) : Json :=
  .object s.branches.toMembers

mutual

def ofJson? : Json → Option Selection
  | .object members => ofMembers? .whole members
  | _ => none

def ofMembers? (s : Selection) : List (String × Json) → Option Selection
  | [] => some s
  | (selector, value) :: rest => do
    let below ← ofJson? value
    ofMembers? (s.replace selector below) rest

end

end Selection

namespace Identifier

def toJson (i : Identifier) : Json :=
  .object [("type", .text i.type), ("attributes", .array (i.attributes.map .text))]

def ofJson? (v : Json) : Option Identifier := do
  let r ← v.record? ["type", "attributes"]
  return {
    type := ← r.required? "type" Json.asText?
    attributes := ← r.withDefault? "attributes" (Json.asList? Json.asText?) [] }

end Identifier

namespace Bounds

def toJson (b : Bounds) : Json :=
  .object (
    Json.optionalMember "minimum" .text b.minimum ++
    Json.optionalMember "exclusiveMinimum" .bool b.exclusiveMinimum ++
    Json.optionalMember "maximum" .text b.maximum ++
    Json.optionalMember "exclusiveMaximum" .bool b.exclusiveMaximum)

def ofJson? (v : Json) : Option Bounds := do
  let r ← v.record? ["minimum", "exclusiveMinimum", "maximum", "exclusiveMaximum"]
  return {
    minimum := ← r.optional? "minimum" Json.asText?
    exclusiveMinimum := ← r.optional? "exclusiveMinimum" Json.asBool?
    maximum := ← r.optional? "maximum" Json.asText?
    exclusiveMaximum := ← r.optional? "exclusiveMaximum" Json.asBool? }

end Bounds

namespace Searchable

def toJson (s : Searchable) : Json :=
  .object [("fields", s.fields.toJson), ("keys", s.keys.toJson)]

def ofJson? (v : Json) : Option Searchable := do
  let r ← v.record? ["fields", "keys"]
  return {
    fields := ← r.withDefault? "fields" Selection.ofJson? .whole
    keys := ← r.withDefault? "keys" Selection.ofJson? .whole }

end Searchable

namespace AnnotationSet

def metadataToJson (metadata : NameMap String) : Json :=
  .object [("ws", Json.ofMap .text metadata)]

def metadataOfJson? (v : Json) : Option (NameMap String) := do
  let r ← v.record? ["ws"]
  r.withDefault? "ws" (Json.asMap? Json.asText?) ∅

def toJson (s : AnnotationSet) : Json :=
  .object (
    Json.optionalMember "optional" (fun names => .array (names.map .text))
      (if s.optional.isEmpty then none else some s.optional) ++
    Json.optionalMember "deprecated" (fun names => .array (names.map .text)) s.deprecated ++
    Json.optionalMember "id" Identifier.toJson s.identifier ++
    Json.optionalMember "range" Bounds.toJson s.bounds ++
    Json.optionalMember "searchable_ws_subset" Searchable.toJson s.searchable ++
    Json.optionalMember "metadata" metadataToJson
      (if s.metadata.isEmpty then none else some s.metadata) ++
    Json.optionalMember "unknown" (Json.ofMap (fun bodies => .array (bodies.map .text)))
      (if s.unknown.isEmpty then none else some s.unknown))

def ofJson? (v : Json) : Option AnnotationSet := do
  let r ← v.record?
    ["optional", "deprecated", "id", "range", "searchable_ws_subset", "metadata", "unknown"]
  return {
    optional := ← r.withDefault? "optional" (Json.asList? Json.asText?) []
    deprecated := ← r.optional? "deprecated" (Json.asList? Json.asText?)
    identifier := ← r.optional? "id" Identifier.ofJson?
    bounds := ← r.optional? "range" Bounds.ofJson?
    searchable := ← r.optional? "searchable_ws_subset" Searchable.ofJson?
    metadata := ← r.withDefault? "metadata" metadataOfJson? ∅
    unknown := ← r.withDefault? "unknown" (Json.asMap? (Json.asList? Json.asText?)) ∅ }

end AnnotationSet

end IdlDirectives
