import IdlDirectives.Compilation.Annotated
import IdlDirectives.Format.Types
import IdlDirectives.Json.Reader

namespace IdlDirectives

open Json (Record)

namespace FunctionDecl

def toJson (f : FunctionDecl) : Json :=
  .object ([
    ("module", .text f.module),
    ("name", .text f.name),
    ("comment", .text f.comment),
    ("parameters", .array (f.parameters.map Field.toJson)),
    ("returns", .array (f.returns.map Field.toJson))] ++
    Json.optionalMember "annotations" AnnotationSet.toJson f.annotations)

def ofJson? (v : Json) : Option FunctionDecl := do
  let r ← v.record? ["module", "name", "comment", "parameters", "returns", "annotations"]
  return {
    module := ← r.required? "module" Json.asText?
    name := ← r.required? "name" Json.asText?
    comment := ← r.withDefault? "comment" Json.asText? ""
    parameters := ← r.withDefault? "parameters" (Json.asList? Field.ofJson?) []
    returns := ← r.withDefault? "returns" (Json.asList? Field.ofJson?) []
    annotations := ← r.optional? "annotations" AnnotationSet.ofJson? }

end FunctionDecl

namespace ModuleDecl

def toJson (m : ModuleDecl) : Json :=
  .object ([
    ("name", .text m.name),
    ("comment", .text m.comment),
    ("components", .array (m.functions.map FunctionDecl.toJson))] ++
    Json.optionalMember "annotations" AnnotationSet.toJson m.annotations)

def ofJson? (v : Json) : Option ModuleDecl := do
  let r ← v.record? ["name", "comment", "components", "annotations"]
  return {
    name := ← r.required? "name" Json.asText?
    comment := ← r.withDefault? "comment" Json.asText? ""
    functions := ← r.withDefault? "components" (Json.asList? FunctionDecl.ofJson?) []
    annotations := ← r.optional? "annotations" AnnotationSet.ofJson? }

end ModuleDecl

namespace CompiledModule

def toJson (m : CompiledModule) : Json :=
  .object ([
    ("module", m.module.toJson),
    ("includes", .array (m.includes.map .text))] ++
    Json.optionalMember "source" .text m.source)

def ofJson? (v : Json) : Option CompiledModule := do
  let r ← v.record? ["module", "includes", "source"]
  return {
    module := ← r.required? "module" ModuleDecl.ofJson?
    includes := ← r.withDefault? "includes" (Json.asList? Json.asText?) []
    source := ← r.optional? "source" Json.asText? }

end CompiledModule

namespace Compilation

def toJson (c : Compilation) : Json :=
  .object [
    ("types", c.types.toJson),
    ("services", Json.ofMap (fun modules => .array (modules.map CompiledModule.toJson)) c.services)]

def ofJson? (v : Json) : Option Compilation := do
  let r ← v.record? ["types", "services"]
  return {
    types := ← r.required? "types" TypeGraph.ofJson?
    services := ← r.withDefault? "services" (Json.asMap? (Json.asList? CompiledModule.ofJson?)) ∅ }

def parse? (text : String) : Option Compilation :=
  (Json.parse? text).bind ofJson?

end Compilation

namespace Settings

def toJson (s : Settings) : Json :=
  .object [("ignoreWarnings", .bool s.ignoreWarnings)]

def ofJson? (v : Json) : Option Settings := do
  let r ← v.record? ["ignoreWarnings"]
  return { ignoreWarnings := ← r.withDefault? "ignoreWarnings" Json.asBool? false }

def parse? (text : String) : Option Settings :=
  (Json.parse? text).bind ofJson?

end Settings

end IdlDirectives
