import IdlDirectives.Proofs.Pass.Whole

namespace IdlDirectives

structure FunctionOutline where
  module : String
  name : String
  comment : String
  parameters : List Field
  returns : List Field
deriving DecidableEq

structure ModuleOutline where
  name : String
  comment : String
  functions : List FunctionOutline
  includes : List String
  source : Option String
deriving DecidableEq

/-- All of a compilation but its annotations. -/
structure Outline where
  shapes : Array Shape
  table : NameMap (NameMap TypeId)
  services : NameMap (List ModuleOutline)
deriving DecidableEq

def FunctionDecl.outline (f : FunctionDecl) : FunctionOutline where
  module := f.module
  name := f.name
  comment := f.comment
  parameters := f.parameters
  returns := f.returns

def CompiledModule.outline (m : CompiledModule) : ModuleOutline where
  name := m.module.name
  comment := m.module.comment
  functions := m.module.functions.map (·.outline)
  includes := m.includes
  source := m.source

def TypeGraph.shapes (g : TypeGraph) : Array Shape :=
  g.nodes.map (·.shape)

def Compilation.outline (c : Compilation) : Outline where
  shapes := c.types.shapes
  table := c.types.table
  services := c.services.map (fun modules => modules.map (·.outline))

def FunctionOutline.bare (f : FunctionOutline) : FunctionDecl where
  module := f.module
  name := f.name
  comment := f.comment
  parameters := f.parameters
  returns := f.returns
  annotations := none

def ModuleOutline.bare (m : ModuleOutline) : CompiledModule where
  module := ⟨m.name, m.comment, m.functions.map (·.bare), none⟩
  includes := m.includes
  source := m.source

def Outline.bare (o : Outline) : Compilation where
  types := ⟨o.shapes.map (⟨·, none⟩), o.table⟩
  services := o.services.map (fun modules => modules.map (·.bare))

theorem CompiledModule.bare_outline (m : CompiledModule) :
    m.outline.bare = { m with module := m.module.cleared } := by
  simp only [outline, ModuleOutline.bare, ModuleDecl.cleared, ModuleDecl.mapFunctions, List.map_map]
  rfl

namespace Compilation

theorem cleared_eq_bare (c : Compilation) : c.cleared = c.outline.bare := by
  have services : c.cleared.services = c.outline.bare.services := by
    simp only [cleared, mapModules, outline, Outline.bare, NameMap.map_map, Function.comp_def,
      List.map_map, CompiledModule.bare_outline]
  have types : c.cleared.types = c.outline.bare.types := by
    simp only [cleared, TypeGraph.cleared, outline, TypeGraph.shapes, Outline.bare, Array.map_map]
    rfl
  have both : c.cleared = ⟨c.cleared.types, c.cleared.services⟩ := rfl
  rw [both, types, services]

theorem pass_of_outline {c d : Compilation} (same : c.outline = d.outline) (settings : Settings) :
    c.pass settings = d.pass settings := by
  have cleared : c.cleared = d.cleared := by rw [cleared_eq_bare, same, ← cleared_eq_bare]
  rw [pass, Pass.start, cleared]
  rfl

end Compilation

namespace TypeGraph

variable (g : TypeGraph)

theorem shapes_cleared : g.cleared.shapes = g.shapes := by
  simp only [shapes, cleared, Array.map_map]
  rfl

theorem shapes_initialised (roots : List TypeId) : (g.initialised roots).shapes = g.shapes := by
  apply Array.ext_getElem?
  intro place
  simp only [shapes, initialised, Array.getElem?_map, Array.getElem?_mapIdx, Option.map_map]
  congr 1
  funext node
  simp only [Function.comp]
  split
  · rfl
  · rfl

theorem shapes_annotate (id : TypeId) (more : AnnotationSet) :
    (g.annotate id more).shapes = g.shapes := by
  apply Array.ext_getElem?
  intro place
  simp only [shapes, annotate, Array.getElem?_map, Array.getElem?_modify]
  split
  · rw [Option.map_map]
    rfl
  · rfl

end TypeGraph

namespace Pass

structure KeepsTypes (p q : Pass) : Prop where
  shapes : q.compilation.types.shapes = p.compilation.types.shapes
  table : q.compilation.types.table = p.compilation.types.table

theorem KeepsTypes.trans {p q r : Pass} (first : p.KeepsTypes q) (second : q.KeepsTypes r) :
    p.KeepsTypes r :=
  ⟨second.shapes.trans first.shapes, second.table.trans first.table⟩

theorem keepsTypes_foldl {α : Type} {step : Pass → α → Pass}
    (each : ∀ (p : Pass) (item : α), p.KeepsTypes (step p item)) (items : List α) (p : Pass) :
    p.KeepsTypes (items.foldl step p) :=
  List.foldlRecOn items step ⟨rfl, rfl⟩ (fun q kept item _ => kept.trans (each q item))

theorem keepsTypes_annotateEntry (p : Pass) (entry : TypeGraph.Entry) :
    p.KeepsTypes (p.annotateEntry entry) := by
  unfold annotateEntry
  split
  · exact ⟨rfl, rfl⟩
  · exact ⟨TypeGraph.shapes_annotate _ _ _, rfl⟩

theorem keepsTypes_visitFunction (p : Pass) (f : FunctionDecl) : p.KeepsTypes (p.visitFunction f) :=
  ⟨TypeGraph.shapes_initialised _ _, rfl⟩

end Pass

namespace Compilation

variable (c : Compilation) (settings : Settings)

theorem keepsTypes_pass : (Pass.start c settings).KeepsTypes (c.pass settings) := by
  have modules : (Pass.start c settings).KeepsTypes (Pass.typesBegun c settings) :=
    ⟨TypeGraph.shapes_initialised _ _, rfl⟩
  have types : (Pass.typesBegun c settings).KeepsTypes (Pass.typesDone c settings) :=
    Pass.keepsTypes_foldl Pass.keepsTypes_annotateEntry _ _
  have functions : (Pass.typesDone c settings).KeepsTypes (Pass.functionsVisited c settings) :=
    Pass.keepsTypes_foldl Pass.keepsTypes_visitFunction _ _
  have kept := modules.trans (types.trans functions)
  have finished : (c.pass settings).compilation.types =
      (Pass.functionsVisited c settings).compilation.types := by
    rw [pass_eq]
    exact types_mapModules _ _
  exact ⟨(congrArg TypeGraph.shapes finished).trans kept.shapes,
    (congrArg TypeGraph.table finished).trans kept.table⟩

theorem outline_pass : (c.pass settings).compilation.outline = c.outline := by
  have services : (c.pass settings).compilation.outline.services = c.outline.services := by
    simp only [outline, services_pass, mapModules, NameMap.map_map, Function.comp_def, List.map_map]
    congr 1
    funext modules
    congr 1
    funext m
    simp only [CompiledModule.outline, ModuleDecl.settled, List.map_map]
    rfl
  have kept := c.keepsTypes_pass settings
  have shapes : (c.pass settings).compilation.outline.shapes = c.outline.shapes :=
    kept.shapes.trans c.types.shapes_cleared
  have table : (c.pass settings).compilation.outline.table = c.outline.table := kept.table
  have three (d : Compilation) : d.outline = ⟨d.outline.shapes, d.outline.table, d.outline.services⟩ :=
    rfl
  rw [three, shapes, table, services]

def passes (settings : Settings) : Nat → Compilation → Compilation
  | 0, c => c
  | n + 1, c => (passes settings n c).pass settings |>.compilation

/-- A pass depends on the outline only and changes nothing of it, so all passes after the first leave
the compilation as it is and have the same report. -/
theorem pass_depends_on_outline :
    (∀ d : Compilation, c.outline = d.outline → c.pass settings = d.pass settings) ∧
      (c.pass settings).compilation.outline = c.outline ∧
      ∀ n, passes settings (n + 1) c = (c.pass settings).compilation ∧
        (passes settings n c).report settings = c.report settings := by
  have again (n : Nat) : (passes settings n c).outline = c.outline := by
    induction n with
    | zero => rfl
    | succ n ih => exact (outline_pass _ settings).trans ih
  refine ⟨fun d same => pass_of_outline same settings, c.outline_pass settings, ?_⟩
  intro n
  have same : (passes settings n c).pass settings = c.pass settings := pass_of_outline (again n) settings
  constructor
  · exact congrArg Pass.compilation same
  · exact congrArg Pass.report same

def loop : Typedef where
  module := "Ring"
  name := "loop"
  comment := "@optional a\n@colour red"
  target := ⟨0⟩

def ring : Compilation where
  types :=
    { nodes :=
        #[⟨.base (.list ⟨1⟩), none⟩, ⟨(.typedef loop), none⟩, ⟨.base (.scalar .int), none⟩]
      table := ⟨[("Ring", ⟨[("loop", ⟨1⟩)], by decide⟩)], by decide⟩ }
  services :=
    ⟨[("services", [⟨⟨"Ring", "", [⟨"Ring", "turn", "@deprecated", [], [⟨"r", ⟨0⟩⟩], none⟩], none⟩,
      [], none⟩])], by decide⟩

def wornRing : Compilation where
  types :=
    { nodes :=
        #[⟨.base (.list ⟨1⟩), some { (∅ : AnnotationSet) with deprecated := some [] }⟩,
          ⟨(.typedef loop), some { (∅ : AnnotationSet) with identifier := some ⟨"kb", []⟩ }⟩,
          ⟨.base (.scalar .int), some { (∅ : AnnotationSet) with optional := ["a"] }⟩]
      table := ⟨[("Ring", ⟨[("loop", ⟨1⟩)], by decide⟩)], by decide⟩ }
  services :=
    ⟨[("services", [⟨⟨"Ring", "", [⟨"Ring", "turn", "@deprecated", [], [⟨"r", ⟨0⟩⟩], some ∅⟩], some ∅⟩,
      [], none⟩])], by decide⟩

theorem pass_depends_on_outline_ring :
    ring.outline = wornRing.outline ∧ ring ≠ wornRing ∧
      ring.pass .standard = wornRing.pass .standard := by
  have same : ring.outline = wornRing.outline := by decide +kernel
  have differ : ring ≠ wornRing := by decide
  exact ⟨same, differ, (pass_depends_on_outline ring .standard).1 wornRing same⟩

end Compilation

end IdlDirectives
