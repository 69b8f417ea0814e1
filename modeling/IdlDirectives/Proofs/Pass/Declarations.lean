import IdlDirectives.Proofs.Pass.Whole
import IdlDirectives.Proofs.Rule.Comments
import IdlDirectives.Proofs.Types.Table

namespace IdlDirectives

namespace TypeGraph

variable (g : TypeGraph)

def comment (id : TypeId) : String :=
  ((g.shape? id).map Shape.comment).getD ""

def declared : List Entry :=
  g.named.filter (fun entry => (g.shape? entry.id).any Shape.isDeclared)

def own (id : TypeId) : AnnotationSet :=
  (Rule.applyComment (Rule.forTypedef g id) (g.comment id)).1

theorem finding?_eq (entry : Entry) :
    g.finding? entry =
      if (g.shape? entry.id).any Shape.isDeclared then
        some (.ofComment (Rule.forTypedef g entry.id) (.typedef entry.module entry.name)
          (g.comment entry.id))
      else none := by
  unfold finding? comment
  cases g.shape? entry.id with
  | none => rfl
  | some shape => rfl

theorem findings_named :
    g.findings g.named =
      g.declared.map (fun entry =>
        .ofComment (Rule.forTypedef g entry.id) (.typedef entry.module entry.name)
          (g.comment entry.id)) := by
  have found : g.finding? = fun entry => _ := funext g.finding?_eq
  unfold findings declared
  rw [found]
  induction g.named with
  | nil => rfl
  | cons entry rest ih =>
    by_cases declares : (g.shape? entry.id).any Shape.isDeclared
    · simp [declares, ih]
    · simp [declares, ih]

theorem contributions_eq {id : TypeId} {shape : Shape} (found : g.shape? id = some shape)
    (declares : shape.isDeclared) (entries : List Entry) :
    g.contributions entries id = List.replicate (entries.countP (·.id = id)) (g.own id) := by
  unfold contributions findings
  induction entries with
  | nil => rfl
  | cons entry rest ih =>
    by_cases named : entry.id = id
    · have finding : (g.finding? entry).map (·.annotations) = some (g.own id) := by
        rw [finding?_eq, named, found]
        simp only [Option.any_some, declares, if_true, Option.map_some]
        rfl
      obtain ⟨first, there, amounts⟩ := Option.map_eq_some_iff.mp finding
      simp [named, there, amounts, ih, List.replicate_succ]
    · simp [named, ih]

end TypeGraph

namespace Compilation

variable (c : Compilation) (settings : Settings)

theorem stored_pass {id : TypeId} {node : Node} (found : c.types.get? id = some node)
    (declares : node.shape.isDeclared) :
    ∃ after, (c.pass settings).compilation.types.get? id = some after ∧ after.shape = node.shape ∧
      after.stored =
        (List.replicate (c.types.timesNamed id) (c.types.own id)).foldl AnnotationSet.merge ∅ ∧
      (c.types.timesNamed id ≠ 0 → after.annotations = some after.stored) := by
  have shape : c.types.shape? id = some node.shape := by
    rw [TypeGraph.shape?, found, Option.map_some]
  obtain ⟨after, there, sameShape, stored, present⟩ := c.node_pass settings found
  rw [c.types.contributions_eq shape declares, ← TypeGraph.timesNamed] at stored present
  refine ⟨after, there, sameShape, stored, ?_⟩
  intro named
  apply present
  simpa using named

theorem entry_pass {entry : TypeGraph.Entry} {node : Node} (member : entry ∈ c.types.named)
    (alone : ∀ other ∈ c.types.named, other.id = entry.id → other = entry)
    (found : c.types.get? entry.id = some node) (declares : node.shape.isDeclared) :
    (c.pass settings).compilation.types.get? entry.id =
      some { node with annotations := some (c.types.own entry.id) } := by
  have once : c.types.timesNamed entry.id = 1 := TypeGraph.timesNamed_eq_one member alone
  obtain ⟨after, there, shape, stored, present⟩ := c.stored_pass settings found declares
  rw [once] at stored present
  have distinct : (c.types.own entry.id).Distinct := Rule.applyComment_distinct _ _ _
  have own : after.stored = c.types.own entry.id := by
    rw [stored]
    exact AnnotationSet.empty_merge distinct.optional
  have annotations : after.annotations = some (c.types.own entry.id) := by
    rw [present (by decide), own]
  rw [there]
  obtain ⟨afterShape, afterAnnotations⟩ := after
  simp only at shape annotations
  rw [shape, annotations]

/-- If no two entries of the table name one node, every declaration ends up with what its own comment
amounts to, and the report has what is rejected of each comment: first of the modules, then of the
types in the order of the table, then of the functions. -/
theorem pass_settles_declarations
    (apart : ∀ a ∈ c.types.named, ∀ b ∈ c.types.named,
      (c.types.get? a.id).isSome → a.id = b.id → a = b) :
    (c.pass settings).compilation.services =
        c.services.map (fun modules =>
          modules.map (fun m =>
            { m with
              module :=
                { m.module with
                  functions := m.module.functions.map (fun f =>
                    { f with
                      annotations := some (Rule.applyComment Rule.forFunction f.comment).1 })
                  annotations := some (Rule.applyComment Rule.forModule m.module.comment).1 } })) ∧
      (∀ entry ∈ c.types.named, ∀ node, c.types.get? entry.id = some node → node.shape.isDeclared →
        (c.pass settings).compilation.types.get? entry.id =
          some
            { node with
              annotations := some
                (Rule.applyComment (Rule.forTypedef c.types entry.id) node.shape.comment).1 }) ∧
      (c.pass settings).report.warnings =
        c.modules.flatMap (fun m =>
            (Finding.ofComment Rule.forModule (.module m.name) m.comment).warnings) ++
          c.types.declared.flatMap (fun entry =>
            (Finding.ofComment (Rule.forTypedef c.types entry.id)
              (.typedef entry.module entry.name) (c.types.comment entry.id)).warnings) ++
          c.functions.flatMap (fun f =>
            (Finding.ofComment Rule.forFunction (.function f.module f.name) f.comment).warnings) ∧
      (c.pass settings).report.modules = c.modules.length ∧
      (c.pass settings).report.types = c.types.declared.length ∧
      (c.pass settings).report.functions = c.functions.length := by
  have report := c.report_pass settings
  rw [c.types.findings_named] at report
  refine ⟨c.services_pass settings, ?_, ?_, ?_, ?_, ?_⟩
  · intro entry member node found declares
    have alone : ∀ other ∈ c.types.named, other.id = entry.id → other = entry := by
      intro other there same
      apply apart other there entry member _ same
      rw [same, found]
      rfl
    have comment : c.types.comment entry.id = node.shape.comment := by
      simp [TypeGraph.comment, TypeGraph.shape?, found]
    have settled := c.entry_pass settings member alone found declares
    rwa [TypeGraph.own, comment] at settled
  · rw [report]
    simp only [List.flatMap_map]
    rfl
  · rw [report]
  · rw [report, List.length_map]
  · rw [report]

def tree : Typedef where
  module := "Plant"
  name := "tree"
  comment := "@deprecated Plant.shrub Plant.shrub\n@colour green"
  target := ⟨0⟩

def orchard : Compilation where
  types :=
    { nodes :=
        #[⟨.base (.struct [⟨"left", ⟨1⟩⟩, ⟨"label", ⟨2⟩⟩]), none⟩,
          ⟨(.typedef tree), some { (∅ : AnnotationSet) with optional := ["left"] }⟩,
          ⟨.base (.scalar .string), none⟩]
      table := ⟨[("Plant", ⟨[("label", ⟨2⟩), ("lost", ⟨7⟩), ("tree", ⟨1⟩)], by decide⟩)], by decide⟩ }
  services :=
    ⟨[("garden",
        [⟨⟨"Plant", "@colour red", [⟨"Plant", "grow", "@deprecated", [⟨"t", ⟨1⟩⟩], [], none⟩], none⟩,
          [], none⟩])], by decide⟩

theorem pass_settles_orchard :
    (∀ a ∈ orchard.types.named, ∀ b ∈ orchard.types.named,
      (orchard.types.get? a.id).isSome → a.id = b.id → a = b) ∧
    (orchard.pass .standard).compilation.types.get? ⟨1⟩ =
      some
        ⟨(.typedef tree),
          some
            { (∅ : AnnotationSet) with
              deprecated := some ["Plant.shrub"]
              unknown := ⟨[("colour", ["green"])], by decide⟩ }⟩ ∧
    (orchard.pass .standard).report.warnings =
      [⟨"colour", .module "Plant", .unrecognized⟩,
        ⟨"deprecated", (.typedef tree.module tree.name), .duplicate "Plant.shrub"⟩,
        ⟨"colour", (.typedef tree.module tree.name), .unrecognized⟩] ∧
    (orchard.pass .standard).report.types = 1 := by
  have apart : ∀ a ∈ orchard.types.named, ∀ b ∈ orchard.types.named,
      (orchard.types.get? a.id).isSome → a.id = b.id → a = b := by decide
  obtain ⟨_, nodes, warnings, _, types, _⟩ := pass_settles_declarations orchard .standard apart
  refine ⟨apart, ?_, ?_, ?_⟩
  · rw [nodes ⟨"Plant", "tree", ⟨1⟩⟩ (by decide) _ rfl rfl]
    decide +kernel
  · rw [warnings]
    decide +kernel
  · rw [types]
    decide

end Compilation

end IdlDirectives
