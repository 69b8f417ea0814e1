import IdlDirectives.Types.Resolution

namespace IdlDirectives

namespace Selector

def elements : String := "[*]"

def values : String := "*"

end Selector

/-- How a structure is named: by the typedef it was reached through, or else by its path. -/
inductive StructureName where
  | declared (module name : String)
  | reached (path : List String)
deriving DecidableEq

inductive SelectionError where
  | keysOfNonMapping (path : List String) (found : BaseType)
  | unknownField (field : String) (within : StructureName)
  | notListSelector (path : List String) (selector : String)
  | notMappingSelector (path : List String) (selector : String)
  | unsupported (path selectors : List String) (found : BaseType)
  | unresolved (cause : ResolveError)
deriving DecidableEq

def shownPath (path : List String) : String :=
  let text := dotted path
  if text.isEmpty then "<root>" else text

def StructureName.text : StructureName → String
  | .declared module name => qualified module name
  | .reached path => "'" ++ shownPath path ++ "'"

def SelectionError.message : SelectionError → String
  | .keysOfNonMapping path found =>
    "keys_of(..) can only be applied to fields that resolve to a mapping, but '" ++ shownPath path ++
      "' resolves to " ++ found.describe
  | .unknownField field within =>
    "field '" ++ field ++ "' does not exist in structure " ++ within.text
  | .notListSelector path selector =>
    "'" ++ shownPath path ++ "' is a list; must use '[*]' to select subfields of objects stored in a " ++
      "list, found '" ++ selector ++ "'"
  | .notMappingSelector path selector =>
    "'" ++ shownPath path ++ "' is a mapping; must use '*' to select subfields of objects stored in a " ++
      "mapping, found '" ++ selector ++ "'"
  | .unsupported path selectors found =>
    "cannot select sub-fields [" ++ ", ".intercalate selectors ++ "] of '" ++ shownPath path ++
      "', which resolves to unsupported type " ++ found.describe
  | .unresolved cause => cause.message

namespace TypeGraph

def structureName (g : TypeGraph) (id : TypeId) (path : List String) : StructureName :=
  match g.shape? id with
  | some (.typedef definition) => .declared definition.module definition.name
  | _ => .reached path

structure Place where
  id : TypeId
  type : BaseType
  path : List String
  selectors : List String

def enter (g : TypeGraph) (place : Place) (selector : String) : Except SelectionError TypeId :=
  match place.type with
  | .struct _ =>
    match place.type.field? selector with
    | some field => .ok field.type
    | none => .error (.unknownField selector (g.structureName place.id place.path))
  | .list element =>
    if selector = Selector.elements then .ok element else .error (.notListSelector place.path selector)
  | .mapping _ value =>
    if selector = Selector.values then .ok value
    else .error (.notMappingSelector place.path selector)
  | .scalar _ | .tuple _ | .unspecifiedObject =>
    .error (.unsupported place.path place.selectors place.type)

/-- Where a node stands. A terminal node that selects keys has to stand at a mapping. -/
def visit (g : TypeGraph) (ofKeys : Bool) (id : TypeId) (path : List String) (node : Branches) :
    Except SelectionError Place :=
  match g.resolve id with
  | .error cause => .error (.unresolved cause)
  | .ok resolved =>
    if ofKeys && node.selectors.isEmpty && !resolved.type.isMapping then
      .error (.keysOfNonMapping path resolved.type)
    else .ok ⟨id, resolved.type, path, node.selectors⟩

def checkBranches (g : TypeGraph) (ofKeys : Bool) (place : Place) :
    Branches → Except SelectionError Unit
  | .none => .ok ()
  | .branch selector below others => do
    let id ← g.enter place selector
    let inner ← g.visit ofKeys id (place.path ++ [selector]) below
    g.checkBranches ofKeys inner below
    g.checkBranches ofKeys place others

/-- Whether a selection fits the type `id`, and if it selects keys, those of mappings only. -/
def check (g : TypeGraph) (ofKeys : Bool) (id : TypeId) (s : Selection) :
    Except SelectionError Unit := do
  let place ← g.visit ofKeys id [] s.branches
  g.checkBranches ofKeys place s.branches

end TypeGraph

end IdlDirectives
