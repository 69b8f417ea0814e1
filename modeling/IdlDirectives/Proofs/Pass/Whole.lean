import IdlDirectives.Proofs.NameMap
import IdlDirectives.Proofs.Pass.Phases

namespace IdlDirectives

namespace Compilation

theorem modules_mapModules (change : ModuleDecl → ModuleDecl) (c : Compilation) :
    (c.mapModules change).modules = c.modules.map change := by
  simp [modules, mapModules, NameMap.values_map, List.map_flatten, Function.comp_def]

theorem types_mapModules (change : ModuleDecl → ModuleDecl) (c : Compilation) :
    (c.mapModules change).types = c.types :=
  rfl

theorem modules_of_services {c d : Compilation} (same : d.services = c.services) :
    d.modules = c.modules := by
  rw [modules, same, modules]

theorem functions_cleared (c : Compilation) : c.cleared.functions = c.functions.map (·.cleared) := by
  have modules : c.cleared.modules = c.modules.map (·.cleared) := c.modules_mapModules (·.cleared)
  simp only [functions, modules, List.flatMap_map, List.map_flatMap]
  rfl

theorem functions_annotated (c : Compilation) : (c.mapModules (·.annotated)).functions = c.functions := by
  simp only [functions, modules_mapModules, List.flatMap_map]
  rfl

end Compilation

def ModuleDecl.settled (m : ModuleDecl) : ModuleDecl :=
  { m with
    functions := m.functions.map (·.annotated)
    annotations := some m.finding.annotations }

theorem ModuleDecl.settled_eq (m : ModuleDecl) :
    (m.cleared.annotated).mapFunctions (·.annotated) = m.settled := by
  simp only [mapFunctions, annotated, cleared, settled, List.map_map]
  rfl

namespace Pass

variable (c : Compilation) (settings : Settings)

/-- The pass before the first phase that looks at the graph. -/
def modulesDone : Pass :=
  (start c settings).annotateModules

def typesBegun : Pass :=
  { modulesDone c settings with
    compilation :=
      { (modulesDone c settings).compilation with
        types := c.types.cleared.initialised (c.types.named.map (·.id)) } }

def typesDone : Pass :=
  (modulesDone c settings).annotateTypes

theorem typesDone_entered : (typesBegun c settings).Entered c.types.named (typesDone c settings) :=
  annotateEntries_entered c.types.named (typesBegun c settings)

theorem shape?_typesBegun : (typesBegun c settings).compilation.types.shape? = c.types.shape? := by
  rw [typesBegun, TypeGraph.shape?_initialised, TypeGraph.shape?_cleared]

theorem functions_typesDone :
    (typesDone c settings).compilation.functions = c.functions.map (·.cleared) := by
  have services : (typesDone c settings).compilation.services =
      (c.cleared.mapModules (·.annotated)).services := (typesDone_entered c settings).services
  rw [Compilation.functions, Compilation.modules_of_services services, ← Compilation.functions,
    Compilation.functions_annotated, Compilation.functions_cleared]

def functionsVisited : Pass :=
  (typesDone c settings).compilation.functions.foldl visitFunction (typesDone c settings)

theorem functionsVisited_visited :
    (typesDone c settings).Visited (c.functions.map (·.cleared)) (functionsVisited c settings) := by
  rw [functionsVisited, functions_typesDone]
  exact visitFunctions_visited _ _

theorem services_functionsVisited :
    (functionsVisited c settings).compilation.services =
      (c.cleared.mapModules (·.annotated)).services := by
  rw [(functionsVisited_visited c settings).services, (typesDone_entered c settings).services]
  rfl

theorem report_typesBegun :
    (typesBegun c settings).report =
      { Report.empty with
        warnings := c.modules.flatMap (·.finding.warnings)
        modules := c.modules.length
        suppressed := settings.ignoreWarnings } := by
  have modules : c.cleared.modules = c.modules.map (·.cleared) :=
    c.modules_mapModules (·.cleared)
  have report : (typesBegun c settings).report =
      c.cleared.modules.foldl reportModule { Report.empty with suppressed := settings.ignoreWarnings } := rfl
  rw [report, report_reportModules, modules]
  simp only [List.flatMap_map, List.length_map, Report.empty, List.nil_append, Nat.zero_add]
  rfl

end Pass

namespace Compilation

variable (c : Compilation) (settings : Settings)

theorem pass_eq :
    c.pass settings =
      { Pass.functionsVisited c settings with
        compilation := (Pass.functionsVisited c settings).compilation.mapModules
          (·.mapFunctions (·.annotated)) } := by
  rw [pass, Pass.annotateFunctions]
  rfl

theorem services_pass :
    (c.pass settings).compilation.services = (c.mapModules (·.settled)).services := by
  rw [pass_eq, mapModules, Pass.services_functionsVisited]
  simp only [mapModules, cleared, NameMap.map_map]
  congr 1
  funext modules
  simp only [Function.comp, List.map_map]
  congr 1
  funext m
  simp only [Function.comp, ModuleDecl.settled_eq]

theorem report_pass :
    (c.pass settings).report =
      { warnings := c.modules.flatMap (·.finding.warnings) ++
          (c.types.findings c.types.named).flatMap (·.warnings) ++
          c.functions.flatMap (·.finding.warnings)
        modules := c.modules.length
        types := (c.types.findings c.types.named).length
        functions := c.functions.length
        suppressed := settings.ignoreWarnings } := by
  have findings : (Pass.typesBegun c settings).compilation.types.findings c.types.named =
      c.types.findings c.types.named := by
    rw [TypeGraph.findings, TypeGraph.finding?_of_shape? (Pass.shape?_typesBegun c settings),
      TypeGraph.findings]
  rw [pass_eq, (Pass.functionsVisited_visited c settings).report,
    (Pass.typesDone_entered c settings).report, findings, Pass.report_typesBegun]
  simp only [List.flatMap_map, List.length_map, Report.empty, Nat.zero_add, List.append_assoc]
  rfl

theorem node_pass {id : TypeId} {node : Node} (found : c.types.get? id = some node) :
    ∃ after, (c.pass settings).compilation.types.get? id = some after ∧ after.shape = node.shape ∧
      after.stored = (c.types.contributions c.types.named id).foldl AnnotationSet.merge ∅ ∧
      (c.types.contributions c.types.named id ≠ [] → after.annotations = some after.stored) := by
  have contributions : (Pass.typesBegun c settings).compilation.types.contributions c.types.named id =
      c.types.contributions c.types.named id := by
    simp only [TypeGraph.contributions, TypeGraph.findings,
      TypeGraph.finding?_of_shape? (Pass.shape?_typesBegun c settings)]
  -- whether or not the node is initialised before it is annotated, it has nothing then
  have begun : ∃ before, (Pass.typesBegun c settings).compilation.types.get? id = some before ∧
      before.shape = node.shape ∧ before.stored = ∅ := by
    simp only [Pass.typesBegun, TypeGraph.get?_initialised, TypeGraph.get?_cleared, found,
      Option.map_some]
    split
    · exact ⟨node.cleared.initialised, rfl, rfl, rfl⟩
    · exact ⟨node.cleared, rfl, rfl, rfl⟩
  obtain ⟨before, place, shape, nothing⟩ := begun
  have done := (Pass.typesDone_entered c settings).nodes id
  rw [place, contributions, Option.map_some] at done
  generalize c.types.contributions c.types.named id = sets at done ⊢
  have settled : (sets.foldl Node.merged before).shape = node.shape ∧
      (sets.foldl Node.merged before).stored = sets.foldl AnnotationSet.merge ∅ := by
    rw [Node.shape_foldl_merged, Node.stored_foldl_merged, nothing]
    exact ⟨shape, rfl⟩
  rw [pass_eq, mapModules]
  rcases (Pass.functionsVisited_visited c settings).nodes id _ done with kept | initialised
  · exact ⟨_, kept, settled.1, settled.2, fun named => Node.annotations_foldl_merged named before⟩
  · exact ⟨_, initialised, settled.1, settled.2, fun _ => rfl⟩

end Compilation

namespace Report

def suppress (suppressed : Bool) (r : Report) : Report :=
  { r with suppressed }

section

variable (suppressed : Bool) (r : Report)

@[simp] theorem warnings_suppress : (r.suppress suppressed).warnings = r.warnings := rfl

@[simp] theorem modules_suppress : (r.suppress suppressed).modules = r.modules := rfl

@[simp] theorem types_suppress : (r.suppress suppressed).types = r.types := rfl

@[simp] theorem functions_suppress : (r.suppress suppressed).functions = r.functions := rfl

end

end Report

namespace Pass

def suppress (suppressed : Bool) (p : Pass) : Pass :=
  { p with report := p.report.suppress suppressed }

section

variable (suppressed : Bool) (p : Pass)

@[simp] theorem compilation_suppress : (p.suppress suppressed).compilation = p.compilation := rfl

@[simp] theorem report_suppress :
    (p.suppress suppressed).report = p.report.suppress suppressed :=
  rfl

theorem annotateModules_suppress :
    (p.suppress suppressed).annotateModules = p.annotateModules.suppress suppressed := by
  have report : p.compilation.modules.foldl reportModule (p.report.suppress suppressed) =
      (p.compilation.modules.foldl reportModule p.report).suppress suppressed :=
    List.foldl_hom (Report.suppress suppressed) (fun _ _ => rfl)
  simp only [annotateModules, suppress, report]

theorem annotateEntry_suppress (entry : TypeGraph.Entry) :
    (p.suppress suppressed).annotateEntry entry = (p.annotateEntry entry).suppress suppressed := by
  simp only [annotateEntry, suppress]
  cases p.compilation.types.finding? entry with
  | none => rfl
  | some found => rfl

theorem annotateTypes_suppress :
    (p.suppress suppressed).annotateTypes = p.annotateTypes.suppress suppressed := by
  simp only [annotateTypes]
  rw [← List.foldl_hom (suppress suppressed) (annotateEntry_suppress suppressed)]
  rfl

theorem annotateFunctions_suppress :
    (p.suppress suppressed).annotateFunctions = p.annotateFunctions.suppress suppressed := by
  have visited : p.compilation.functions.foldl visitFunction (p.suppress suppressed) =
      (p.compilation.functions.foldl visitFunction p).suppress suppressed :=
    List.foldl_hom (suppress suppressed) (fun _ _ => rfl)
  simp only [annotateFunctions, compilation_suppress, visited]
  rfl

end

end Pass

namespace Compilation

variable (c : Compilation) (settings : Settings)

/-- The settings decide only whether something is printed about the warnings. -/
theorem pass_eq_suppress : c.pass settings = (c.pass .standard).suppress settings.ignoreWarnings := by
  have start : Pass.start c settings = (Pass.start c .standard).suppress settings.ignoreWarnings := rfl
  rw [pass, start, Pass.annotateModules_suppress, Pass.annotateTypes_suppress,
    Pass.annotateFunctions_suppress, ← pass]

theorem compilation_pass : (c.pass settings).compilation = c.annotated := by
  rw [c.pass_eq_suppress settings, Pass.compilation_suppress, annotated]

theorem report_eq_suppress :
    c.report settings = (c.report .standard).suppress settings.ignoreWarnings := by
  rw [report, c.pass_eq_suppress settings, Pass.report_suppress, report]

end Compilation

end IdlDirectives
