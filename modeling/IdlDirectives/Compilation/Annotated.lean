import IdlDirectives.Compilation
import IdlDirectives.Report
import IdlDirectives.Rule.Catalogue
import IdlDirectives.Types.Reach

namespace IdlDirectives

structure Settings where
  ignoreWarnings : Bool
deriving DecidableEq

namespace Settings

def standard : Settings := ⟨false⟩

instance : Inhabited Settings := ⟨standard⟩

end Settings

structure Finding where
  annotations : AnnotationSet
  warnings : List Warning
deriving DecidableEq

def Finding.ofComment (rules : List Rule) (target : Declaration) (comment : String) : Finding :=
  let (annotations, flagged) := Rule.applyComment rules comment
  ⟨annotations, flagged.map (fun f => ⟨f.flag, target, f.reason⟩)⟩

namespace FunctionDecl

def finding (f : FunctionDecl) : Finding :=
  .ofComment Rule.forFunction (.function f.module f.name) f.comment

def cleared (f : FunctionDecl) : FunctionDecl :=
  { f with annotations := none }

def annotated (f : FunctionDecl) : FunctionDecl :=
  { f with annotations := some f.finding.annotations }

end FunctionDecl

namespace ModuleDecl

def finding (m : ModuleDecl) : Finding :=
  .ofComment Rule.forModule (.module m.name) m.comment

def mapFunctions (change : FunctionDecl → FunctionDecl) (m : ModuleDecl) : ModuleDecl :=
  { m with functions := m.functions.map change }

def cleared (m : ModuleDecl) : ModuleDecl :=
  { m.mapFunctions (·.cleared) with annotations := none }

def annotated (m : ModuleDecl) : ModuleDecl :=
  { m with annotations := some m.finding.annotations }

end ModuleDecl

def Shape.isDeclared : Shape → Bool
  | .base (.scalar _) | .base .unspecifiedObject => false
  | _ => true

namespace TypeGraph

def cleared (g : TypeGraph) : TypeGraph :=
  { g with nodes := g.nodes.map (fun node => { node with annotations := none }) }

/-- Gives the empty set to every node that can be reached from `roots` and has no annotations yet. -/
def initialised (g : TypeGraph) (roots : List TypeId) : TypeGraph :=
  let places := (g.reachable roots).map (·.number.toNat)
  { g with
    nodes := g.nodes.mapIdx (fun place node =>
      if place ∈ places then { node with annotations := some (node.annotations.getD ∅) } else node) }

def annotate (g : TypeGraph) (id : TypeId) (more : AnnotationSet) : TypeGraph :=
  { g with
    nodes := g.nodes.modify id.number.toNat (fun node =>
      { node with annotations := some ((node.annotations.getD ∅).merge more) }) }

/-- What an entry of the table amounts to: nothing if its node is missing, a scalar or an unspecified
object. -/
def finding? (g : TypeGraph) (entry : Entry) : Option Finding :=
  match g.shape? entry.id with
  | none => none
  | some shape =>
    if shape.isDeclared then
      some (.ofComment (Rule.forTypedef g entry.id) (.typedef entry.module entry.name) shape.comment)
    else none

end TypeGraph

namespace Compilation

def mapModules (change : ModuleDecl → ModuleDecl) (c : Compilation) : Compilation :=
  { c with
    services := c.services.map (fun modules =>
      modules.map (fun m => { m with module := change m.module })) }

def cleared (c : Compilation) : Compilation :=
  { c.mapModules (·.cleared) with types := c.types.cleared }

end Compilation

def Report.add (r : Report) (found : Finding) : Report :=
  { r with warnings := r.warnings ++ found.warnings }

structure Pass where
  compilation : Compilation
  report : Report
deriving DecidableEq

namespace Pass

def start (c : Compilation) (settings : Settings) : Pass where
  compilation := c.cleared
  report := { Report.empty with suppressed := settings.ignoreWarnings }

def reportModule (report : Report) (m : ModuleDecl) : Report :=
  { report.add m.finding with modules := report.modules + 1 }

def annotateModules (p : Pass) : Pass where
  compilation := p.compilation.mapModules (·.annotated)
  report := p.compilation.modules.foldl reportModule p.report

def annotateEntry (p : Pass) (entry : TypeGraph.Entry) : Pass :=
  match p.compilation.types.finding? entry with
  | none => p
  | some found =>
    { compilation :=
        { p.compilation with types := p.compilation.types.annotate entry.id found.annotations }
      report := { p.report.add found with types := p.report.types + 1 } }

def annotateTypes (p : Pass) : Pass :=
  let named := p.compilation.types.named
  let types := p.compilation.types.initialised (named.map (·.id))
  named.foldl annotateEntry { p with compilation := { p.compilation with types } }

def visitFunction (p : Pass) (f : FunctionDecl) : Pass where
  compilation := { p.compilation with types := p.compilation.types.initialised f.signature }
  report := { p.report.add f.finding with functions := p.report.functions + 1 }

def annotateFunctions (p : Pass) : Pass :=
  let visited := p.compilation.functions.foldl visitFunction p
  { visited with
    compilation := visited.compilation.mapModules (·.mapFunctions (·.annotated)) }

end Pass

namespace Compilation

def pass (c : Compilation) (settings : Settings) : Pass :=
  (Pass.start c settings).annotateModules.annotateTypes.annotateFunctions

def annotated (c : Compilation) : Compilation :=
  (c.pass .standard).compilation

def report (c : Compilation) (settings : Settings) : Report :=
  (c.pass settings).report

end Compilation

end IdlDirectives
