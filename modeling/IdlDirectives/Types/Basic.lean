import IdlDirectives.AnnotationSet

namespace IdlDirectives

structure TypeId where
  number : UInt32
deriving DecidableEq, Inhabited

inductive ScalarKind where
  | int
  | float
  | string
  | boolean
deriving DecidableEq

namespace ScalarKind

def all : List ScalarKind := [.int, .float, .string, .boolean]

def name : ScalarKind → String
  | .int => "int"
  | .float => "float"
  | .string => "string"
  | .boolean => "boolean"

def isNumeric : ScalarKind → Bool
  | .int | .float => true
  | .string | .boolean => false

end ScalarKind

structure Field where
  name : String
  type : TypeId
deriving DecidableEq

inductive BaseType where
  | scalar (kind : ScalarKind)
  | struct (fields : List Field)
  | list (element : TypeId)
  | mapping (key value : TypeId)
  | tuple (elements : List TypeId)
  | unspecifiedObject
deriving DecidableEq

namespace BaseType

def describe : BaseType → String
  | .scalar kind => kind.name
  | .struct _ => "structure"
  | .list _ => "list"
  | .mapping _ _ => "mapping"
  | .tuple _ => "tuple"
  | .unspecifiedObject => "UnspecifiedObject"

def field? (name : String) : BaseType → Option Field
  | .struct fields => fields.find? (·.name = name)
  | _ => none

def isStruct : BaseType → Bool
  | .struct _ => true
  | _ => false

def isNumber : BaseType → Bool
  | .scalar kind => kind.isNumeric
  | _ => false

def isMapping : BaseType → Bool
  | .mapping _ _ => true
  | _ => false

def references : BaseType → List TypeId
  | .struct fields => fields.map (·.type)
  | .list element => [element]
  | .mapping key value => [key, value]
  | .tuple elements => elements
  | .scalar _ | .unspecifiedObject => []

end BaseType

structure Typedef where
  module : String
  name : String
  comment : String
  target : TypeId
deriving DecidableEq

def qualified (module name : String) : String :=
  module ++ "." ++ name

inductive Shape where
  | base (type : BaseType)
  | typedef (definition : Typedef)
deriving DecidableEq

namespace Shape

def describe : Shape → String
  | .base type => type.describe
  | .typedef definition => "typedef " ++ qualified definition.module definition.name

def comment : Shape → String
  | .base _ => ""
  | .typedef definition => definition.comment

def references : Shape → List TypeId
  | .base type => type.references
  | .typedef definition => [definition.target]

end Shape

structure Node where
  shape : Shape
  annotations : Option AnnotationSet
deriving DecidableEq

/-- Nodes refer to one another by their numbers, so a graph may have cycles and a reference may lead
nowhere. A table names some of the nodes. -/
structure TypeGraph where
  nodes : Array Node
  table : NameMap (NameMap TypeId)
deriving DecidableEq

namespace TypeGraph

def empty : TypeGraph := ⟨#[], ∅⟩

instance : EmptyCollection TypeGraph := ⟨empty⟩

instance : Inhabited TypeGraph := ⟨empty⟩

def size (g : TypeGraph) : Nat :=
  g.nodes.size

def get? (g : TypeGraph) (id : TypeId) : Option Node :=
  g.nodes[id.number.toNat]?

def shape? (g : TypeGraph) (id : TypeId) : Option Shape :=
  (g.get? id).map (·.shape)

def nextId (g : TypeGraph) : TypeId :=
  ⟨g.size.toUInt32⟩

def add (g : TypeGraph) (shape : Shape) : TypeGraph :=
  { g with nodes := g.nodes.push ⟨shape, none⟩ }

def register (g : TypeGraph) (module name : String) (id : TypeId) : TypeGraph :=
  { g with table := g.table.alter module (fun types => (types.getD ∅).insert name id) }

def define (g : TypeGraph) (definition : Typedef) : TypeGraph :=
  (g.add (.typedef definition)).register definition.module definition.name g.nextId

/-- Replaces the shape of a node, which keeps its annotations; nothing happens without the node. -/
def setShape (g : TypeGraph) (id : TypeId) (shape : Shape) : TypeGraph :=
  { g with nodes := g.nodes.modify id.number.toNat ({ · with shape }) }

def lookup (g : TypeGraph) (module name : String) : Option TypeId :=
  (g.table.get? module).bind (·.get? name)

structure Entry where
  module : String
  name : String
  id : TypeId
deriving DecidableEq

def named (g : TypeGraph) : List Entry :=
  g.table.entries.flatMap (fun types =>
    types.2.entries.map (fun entry => ⟨types.1, entry.1, entry.2⟩))

end TypeGraph

end IdlDirectives
