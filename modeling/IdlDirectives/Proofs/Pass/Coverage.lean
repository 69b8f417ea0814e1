import IdlDirectives.Proofs.Pass.Outline
import IdlDirectives.Proofs.Types.Reach

namespace IdlDirectives

def Compilation.roots (c : Compilation) : List TypeId :=
  c.types.named.map (·.id) ++ c.functions.flatMap (·.signature)

namespace TypeGraph

variable {g : TypeGraph} {entries : List Entry} {id : TypeId}

theorem initialised_unnumbered {place : Nat} (unnumbered : ∀ id : TypeId, id.number.toNat ≠ place)
    (roots : List TypeId) : (g.initialised roots).nodes[place]? = g.nodes[place]? := by
  simp [initialised, unnumbered]

theorem annotate_unnumbered {place : Nat} (unnumbered : ∀ id : TypeId, id.number.toNat ≠ place)
    (id : TypeId) (more : AnnotationSet) : (g.annotate id more).nodes[place]? = g.nodes[place]? := by
  rw [annotate, Array.getElem?_modify, if_neg (unnumbered id)]

end TypeGraph

namespace Pass

theorem shape?_visitFunction (p : Pass) (f : FunctionDecl) :
    (p.visitFunction f).compilation.types.shape? = p.compilation.types.shape? :=
  TypeGraph.shape?_initialised _ _

theorem get?_visitFunctions (functions : List FunctionDecl) (p : Pass) (id : TypeId) :
    (functions.foldl visitFunction p).compilation.types.get? id =
      (p.compilation.types.get? id).map (fun node =>
        if ∃ f ∈ functions, id ∈ p.compilation.types.reachable f.signature then node.initialised
        else node) := by
  induction functions generalizing p with
  | nil => simp
  | cons f rest ih =>
    rw [List.foldl_cons, ih, TypeGraph.reachable_of_shape? (p.shape?_visitFunction f), visitFunction,
      TypeGraph.get?_initialised, Option.map_map]
    congr 1
    funext node
    by_cases here : id ∈ p.compilation.types.reachable f.signature
    · by_cases later : ∃ f ∈ rest, id ∈ p.compilation.types.reachable f.signature
      -- a node that has been given its set is given it again
      · simp only [Function.comp, List.mem_cons, exists_eq_or_imp, here, later, if_true, true_or]
        rfl
      · simp only [Function.comp, List.mem_cons, exists_eq_or_imp, here, later, if_true, if_false,
          true_or]
    · simp only [Function.comp, List.mem_cons, exists_eq_or_imp, here, if_false, false_or]

theorem place_foldl {α : Type} {step : Pass → α → Pass} {place : Nat}
    (each : ∀ (q : Pass) (item : α),
      (step q item).compilation.types.nodes[place]? = q.compilation.types.nodes[place]?)
    (items : List α) (p : Pass) :
    (items.foldl step p).compilation.types.nodes[place]? = p.compilation.types.nodes[place]? := by
  induction items generalizing p with
  | nil => rfl
  | cons item rest ih => rw [List.foldl_cons, ih, each]

section Unnumbered

variable {place : Nat} (unnumbered : ∀ id : TypeId, id.number.toNat ≠ place)

include unnumbered

theorem annotateEntry_unnumbered (p : Pass) (entry : TypeGraph.Entry) :
    (p.annotateEntry entry).compilation.types.nodes[place]? = p.compilation.types.nodes[place]? := by
  unfold annotateEntry
  split
  · rfl
  · exact TypeGraph.annotate_unnumbered unnumbered _ _

theorem visitFunction_unnumbered (p : Pass) (f : FunctionDecl) :
    (p.visitFunction f).compilation.types.nodes[place]? = p.compilation.types.nodes[place]? :=
  TypeGraph.initialised_unnumbered unnumbered _

end Unnumbered

end Pass

namespace Compilation

variable (c : Compilation) (settings : Settings)

def entered (id : TypeId) (node : Node) : Node :=
  (c.types.contributions c.types.named id).foldl Node.merged
    (if id ∈ c.types.reachable (c.types.named.map (·.id)) then node.cleared.initialised
    else node.cleared)

theorem get?_pass (id : TypeId) :
    (c.pass settings).compilation.types.get? id =
      (c.types.get? id).map (fun node =>
        if ∃ f ∈ c.functions, id ∈ c.types.reachable f.signature then (c.entered id node).initialised
        else c.entered id node) := by
  have shapes : (Pass.typesDone c settings).compilation.types.shape? = c.types.shape? :=
    (Pass.typesDone_entered c settings).shapes.trans (Pass.shape?_typesBegun c settings)
  have contributions : (Pass.typesBegun c settings).compilation.types.contributions c.types.named id =
      c.types.contributions c.types.named id := by
    simp only [TypeGraph.contributions, TypeGraph.findings,
      TypeGraph.finding?_of_shape? (Pass.shape?_typesBegun c settings)]
  have begun : (Pass.typesBegun c settings).compilation.types.get? id =
      (c.types.get? id).map (fun node =>
        if id ∈ c.types.reachable (c.types.named.map (·.id)) then node.cleared.initialised
        else node.cleared) := by
    simp only [Pass.typesBegun, TypeGraph.get?_initialised, TypeGraph.get?_cleared, Option.map_map,
      TypeGraph.reachable_of_shape? c.types.shape?_cleared]
    rfl
  have signatures : (∃ f ∈ c.functions.map (·.cleared), id ∈ c.types.reachable f.signature) ↔
      ∃ f ∈ c.functions, id ∈ c.types.reachable f.signature := by
    constructor
    · rintro ⟨_, member, reached⟩
      obtain ⟨f, there, rfl⟩ := List.mem_map.mp member
      exact ⟨f, there, reached⟩
    · rintro ⟨f, there, reached⟩
      exact ⟨f.cleared, List.mem_map_of_mem there, reached⟩
  rw [pass_eq, mapModules, Pass.functionsVisited, Pass.functions_typesDone, Pass.get?_visitFunctions,
    (Pass.typesDone_entered c settings).nodes, begun, contributions,
    TypeGraph.reachable_of_shape? shapes, Option.map_map, Option.map_map]
  simp only [signatures]
  rfl

theorem pass_unnumbered {place : Nat} (unnumbered : ∀ id : TypeId, id.number.toNat ≠ place) :
    (c.pass settings).compilation.types.nodes[place]? = (c.types.nodes[place]?).map Node.cleared := by
  rw [pass_eq, mapModules, Pass.functionsVisited,
    Pass.place_foldl (Pass.visitFunction_unnumbered unnumbered), Pass.typesDone, Pass.annotateTypes,
    Pass.place_foldl (Pass.annotateEntry_unnumbered unnumbered),
    TypeGraph.initialised_unnumbered unnumbered]
  exact Array.getElem?_map

end Compilation

end IdlDirectives
