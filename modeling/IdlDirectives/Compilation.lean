import IdlDirectives.Types.Basic

namespace IdlDirectives

structure FunctionDecl where
  module : String
  name : String
  comment : String
  parameters : List Field
  returns : List Field
  annotations : Option AnnotationSet
deriving DecidableEq

namespace FunctionDecl

def signature (f : FunctionDecl) : List TypeId :=
  (f.parameters ++ f.returns).map (·.type)

end FunctionDecl

structure ModuleDecl where
  name : String
  comment : String
  functions : List FunctionDecl
  annotations : Option AnnotationSet
deriving DecidableEq

structure CompiledModule where
  module : ModuleDecl
  includes : List String
  source : Option String
deriving DecidableEq

structure Compilation where
  types : TypeGraph
  services : NameMap (List CompiledModule)
deriving DecidableEq

namespace Compilation

def empty : Compilation := ⟨∅, ∅⟩

instance : Inhabited Compilation := ⟨empty⟩

def addModule (c : Compilation) (service : String) (m : CompiledModule) : Compilation :=
  { c with services := c.services.alter service (fun modules => modules.getD [] ++ [m]) }

def modules (c : Compilation) : List ModuleDecl :=
  c.services.values.flatten.map (·.module)

def functions (c : Compilation) : List FunctionDecl :=
  c.modules.flatMap (·.functions)

end Compilation

end IdlDirectives
