import IdlDirectives.Proofs.Types.Nodes

namespace IdlDirectives

namespace TypeGraph

def findings (g : TypeGraph) (entries : List Entry) : List Finding :=
  entries.filterMap g.finding?

def contributions (g : TypeGraph) (entries : List Entry) (id : TypeId) : List AnnotationSet :=
  (g.findings (entries.filter (·.id = id))).map (·.annotations)

section

variable {g : TypeGraph} {entry : Entry} {id : TypeId}

theorem contributions_of_ne (other : entry.id ≠ id) : g.contributions [entry] id = [] := by
  simp [contributions, findings, other]

theorem contributions_of_none (nothing : g.finding? entry = none) :
    g.contributions [entry] id = [] := by
  by_cases own : entry.id = id
  · simp [contributions, findings, own, nothing]
  · exact contributions_of_ne own

theorem contributions_of_some (own : entry.id = id) {finding : Finding}
    (found : g.finding? entry = some finding) :
    g.contributions [entry] id = [finding.annotations] := by
  simp [contributions, findings, own, found]

end

end TypeGraph

namespace Pass

/-- A pass `q` has gone on from `p` through some entries of the table. -/
structure Entered (p : Pass) (entries : List TypeGraph.Entry) (q : Pass) : Prop where
  services : q.compilation.services = p.compilation.services
  shapes : q.compilation.types.shape? = p.compilation.types.shape?
  report : q.report =
    { p.report with
      warnings := p.report.warnings ++ (p.compilation.types.findings entries).flatMap (·.warnings)
      types := p.report.types + (p.compilation.types.findings entries).length }
  nodes : ∀ id, q.compilation.types.get? id =
    (p.compilation.types.get? id).map
      (fun node => (p.compilation.types.contributions entries id).foldl Node.merged node)

theorem annotateEntry_entered (p : Pass) (entry : TypeGraph.Entry) :
    p.Entered [entry] (p.annotateEntry entry) := by
  unfold annotateEntry
  cases found : p.compilation.types.finding? entry with
  | none =>
    refine ⟨rfl, rfl, ?_, ?_⟩
    · simp [TypeGraph.findings, found]
    · intro id
      simp [TypeGraph.contributions_of_none found]
  | some finding =>
    refine ⟨rfl, TypeGraph.shape?_annotate _ _ _, ?_, ?_⟩
    · simp [TypeGraph.findings, found, Report.add]
    · intro id
      rw [TypeGraph.get?_annotate]
      by_cases own : entry.id = id
      · rw [if_pos own, TypeGraph.contributions_of_some own found]
        rfl
      · rw [if_neg own, TypeGraph.contributions_of_ne own]
        simp

theorem Entered.append {p q r : Pass} {before after : List TypeGraph.Entry}
    (first : p.Entered before q) (second : q.Entered after r) : p.Entered (before ++ after) r := by
  have same : q.compilation.types.finding? = p.compilation.types.finding? :=
    TypeGraph.finding?_of_shape? first.shapes
  refine ⟨second.services.trans first.services, second.shapes.trans first.shapes, ?_, ?_⟩
  · rw [second.report, first.report]
    simp [TypeGraph.findings, same, Nat.add_assoc]
  · intro id
    rw [second.nodes, first.nodes, Option.map_map]
    congr 1
    funext node
    simp [TypeGraph.contributions, TypeGraph.findings, same, Function.comp]

theorem annotateEntries_entered (entries : List TypeGraph.Entry) (p : Pass) :
    p.Entered entries (entries.foldl annotateEntry p) := by
  induction entries generalizing p with
  | nil =>
    exact ⟨rfl, rfl, by simp [TypeGraph.findings],
      by simp [TypeGraph.contributions, TypeGraph.findings]⟩
  | cons entry rest ih => exact (p.annotateEntry_entered entry).append (ih (p.annotateEntry entry))

structure Visited (p : Pass) (functions : List FunctionDecl) (q : Pass) : Prop where
  services : q.compilation.services = p.compilation.services
  report : q.report =
    { p.report with
      warnings := p.report.warnings ++ functions.flatMap (·.finding.warnings)
      functions := p.report.functions + functions.length }
  nodes : ∀ id node, p.compilation.types.get? id = some node →
    q.compilation.types.get? id = some node ∨ q.compilation.types.get? id = some node.initialised

theorem visitFunction_visited (p : Pass) (f : FunctionDecl) : p.Visited [f] (p.visitFunction f) := by
  refine ⟨rfl, ?_, ?_⟩
  · simp [visitFunction, Report.add]
  · intro id node found
    simp only [visitFunction, TypeGraph.get?_initialised, found, Option.map_some]
    split
    · exact .inr rfl
    · exact .inl rfl

theorem Visited.append {p q r : Pass} {before after : List FunctionDecl}
    (first : p.Visited before q) (second : q.Visited after r) : p.Visited (before ++ after) r := by
  refine ⟨second.services.trans first.services, ?_, ?_⟩
  · rw [second.report, first.report]
    simp [Nat.add_assoc]
  · intro id node found
    rcases first.nodes id node found with kept | initialised
    · exact second.nodes id node kept
    · -- to initialise a node twice is to initialise it once
      rcases second.nodes id node.initialised initialised with kept | again
      · exact .inr kept
      · exact .inr again

theorem visitFunctions_visited (functions : List FunctionDecl) (p : Pass) :
    p.Visited functions (functions.foldl visitFunction p) := by
  induction functions generalizing p with
  | nil => exact ⟨rfl, by simp, fun _ _ found => .inl found⟩
  | cons f rest ih => exact (p.visitFunction_visited f).append (ih (p.visitFunction f))

theorem report_reportModules (modules : List ModuleDecl) (report : Report) :
    modules.foldl reportModule report =
      { report with
        warnings := report.warnings ++ modules.flatMap (·.finding.warnings)
        modules := report.modules + modules.length } := by
  induction modules generalizing report with
  | nil => simp
  | cons m rest ih =>
    have count : report.modules + 1 + rest.length = report.modules + (rest.length + 1) := by omega
    simp [ih, reportModule, Report.add, count]

end Pass

end IdlDirectives
