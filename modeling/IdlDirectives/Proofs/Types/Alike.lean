import IdlDirectives.Rule.Catalogue
import IdlDirectives.Types.Reach

namespace IdlDirectives

namespace TypeGraph

/-- Every type of `g` has the same shape in `h`, but for the comment of a typedef. -/
structure Alike (g h : TypeGraph) : Prop where
  missing : ∀ id, g.shape? id = none → h.shape? id = none
  base : ∀ id type, g.shape? id = some (.base type) → h.shape? id = some (.base type)
  typedef : ∀ id definition, g.shape? id = some (.typedef definition) →
    ∃ comment, h.shape? id = some (.typedef { definition with comment })

theorem Alike.of_shape? {g h : TypeGraph} (same : ∀ id, h.shape? id = g.shape? id) : g.Alike h where
  missing id found := by rw [same, found]
  base id type found := by rw [same, found]
  typedef id definition found := ⟨definition.comment, by rw [same, found]⟩

section

variable {g h : TypeGraph} (alike : g.Alike h)

include alike

theorem Alike.chainName : g.chainName = h.chainName := by
  funext id
  unfold TypeGraph.chainName
  match found : g.shape? id with
  | none => rw [alike.missing id found]
  | some (.base type) => rw [alike.base id type found]
  | some (.typedef definition) =>
    obtain ⟨comment, there⟩ := alike.typedef id definition found
    rw [there]

theorem Alike.resolveFrom (trail : List TypeId) (id : TypeId) :
    g.resolveFrom trail id = h.resolveFrom trail id := by
  fun_induction g.resolveFrom trail id with
  | case1 trail id found => rw [h.resolveFrom_eq, alike.missing id found]
  | case2 trail id type found => rw [h.resolveFrom_eq, alike.base id type found]
  | case3 trail id definition found again =>
    obtain ⟨comment, there⟩ := alike.typedef id definition found
    rw [h.resolveFrom_eq, there, alike.chainName]
    exact (if_pos again).symm
  | case4 trail id definition found fresh ih =>
    obtain ⟨comment, there⟩ := alike.typedef id definition found
    rw [h.resolveFrom_eq, there, ih]
    exact (if_neg fresh).symm

theorem Alike.resolve : g.resolve = h.resolve := by
  funext id
  exact alike.resolveFrom [] id

theorem Alike.structureName : g.structureName = h.structureName := by
  funext id path
  unfold TypeGraph.structureName
  match found : g.shape? id with
  | none => rw [alike.missing id found]
  | some (.base type) => rw [alike.base id type found]
  | some (.typedef definition) =>
    obtain ⟨comment, there⟩ := alike.typedef id definition found
    rw [there]

theorem Alike.visit : g.visit = h.visit := by
  funext ofKeys id path node
  simp only [TypeGraph.visit, alike.resolve]

theorem Alike.enter : g.enter = h.enter := by
  funext place selector
  simp only [TypeGraph.enter, alike.structureName]

theorem Alike.checkBranches (ofKeys : Bool) (place : Place) (t : Branches) :
    g.checkBranches ofKeys place t = h.checkBranches ofKeys place t := by
  induction t generalizing place with
  | none => rfl
  | branch selector below others inner outer =>
    simp only [TypeGraph.checkBranches, alike.enter, alike.visit, inner, outer]

theorem Alike.check : g.check = h.check := by
  funext ofKeys id s
  simp only [TypeGraph.check, alike.visit, alike.checkBranches]

theorem Alike.requireStruct : Rule.requireStruct g = Rule.requireStruct h := by
  funext id
  simp only [Rule.requireStruct, alike.resolve]

theorem Alike.forTypedef : Rule.forTypedef g = Rule.forTypedef h := by
  have faults : Rule.searchFault? g = Rule.searchFault? h := by
    funext id param
    simp only [Rule.searchFault?, alike.check]
  funext id
  simp only [Rule.forTypedef, Rule.optional, Rule.identifier, Rule.bounds, Rule.searchable, Rule.metadata,
    alike.resolve, alike.requireStruct, faults]

end

end TypeGraph

end IdlDirectives
