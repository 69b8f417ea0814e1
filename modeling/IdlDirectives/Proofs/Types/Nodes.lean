import IdlDirectives.Compilation.Annotated
import IdlDirectives.Proofs.Types.Alike

namespace IdlDirectives

namespace Node

def stored (node : Node) : AnnotationSet :=
  node.annotations.getD ∅

def cleared (node : Node) : Node :=
  { node with annotations := none }

def initialised (node : Node) : Node :=
  { node with annotations := some node.stored }

def merged (node : Node) (more : AnnotationSet) : Node :=
  { node with annotations := some (node.stored.merge more) }

theorem stored_foldl_merged (sets : List AnnotationSet) (node : Node) :
    (sets.foldl merged node).stored = sets.foldl AnnotationSet.merge node.stored := by
  induction sets generalizing node with
  | nil => rfl
  | cons first rest ih => exact ih (node.merged first)

theorem shape_foldl_merged (sets : List AnnotationSet) (node : Node) :
    (sets.foldl merged node).shape = node.shape := by
  induction sets generalizing node with
  | nil => rfl
  | cons first rest ih => exact ih (node.merged first)

theorem annotations_foldl_merged {sets : List AnnotationSet} (some_set : sets ≠ []) (node : Node) :
    (sets.foldl merged node).annotations = some (sets.foldl merged node).stored := by
  induction sets generalizing node with
  | nil => contradiction
  | cons first rest ih =>
    cases rest with
    | nil => rfl
    | cons second rest => exact ih (List.cons_ne_nil second rest) (node.merged first)

end Node

namespace TypeGraph

variable (g : TypeGraph)

theorem get?_cleared (id : TypeId) : g.cleared.get? id = (g.get? id).map Node.cleared := by
  simp only [get?, cleared, Array.getElem?_map]
  rfl

theorem number_inj {id other : TypeId} : id.number.toNat = other.number.toNat ↔ id = other := by
  obtain ⟨number⟩ := id
  obtain ⟨number'⟩ := other
  rw [UInt32.toNat_inj, TypeId.mk.injEq]

theorem get?_initialised (roots : List TypeId) (id : TypeId) :
    (g.initialised roots).get? id =
      (g.get? id).map (fun node => if id ∈ g.reachable roots then node.initialised else node) := by
  simp only [get?, initialised, Array.getElem?_mapIdx, List.mem_map, number_inj, exists_eq_right]
  rfl

theorem get?_annotate (id other : TypeId) (more : AnnotationSet) :
    (g.annotate id more).get? other =
      if id = other then (g.get? other).map (·.merged more) else g.get? other := by
  simp only [get?, annotate, Array.getElem?_modify, number_inj]
  rfl

theorem shape?_cleared : g.cleared.shape? = g.shape? := by
  funext id
  simp only [shape?, get?_cleared, Option.map_map]
  rfl

theorem shape?_initialised (roots : List TypeId) : (g.initialised roots).shape? = g.shape? := by
  funext id
  simp only [shape?, get?_initialised, Option.map_map]
  congr 1
  funext node
  simp only [Function.comp]
  split
  · rfl
  · rfl

theorem shape?_annotate (id : TypeId) (more : AnnotationSet) :
    (g.annotate id more).shape? = g.shape? := by
  funext other
  simp only [shape?, get?_annotate]
  split
  · rw [Option.map_map]
    rfl
  · rfl

theorem finding?_of_shape? {g h : TypeGraph} (same : h.shape? = g.shape?) :
    h.finding? = g.finding? := by
  have alike : g.Alike h := .of_shape? (congrFun same)
  funext entry
  simp only [finding?, same, alike.forTypedef]

end TypeGraph

end IdlDirectives
