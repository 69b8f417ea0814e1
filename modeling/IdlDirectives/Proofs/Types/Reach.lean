import IdlDirectives.Proofs.Types.Nodes

namespace IdlDirectives.TypeGraph

def references (g : TypeGraph) (id : TypeId) : List TypeId :=
  ((g.shape? id).map Shape.references).getD []

section

variable {g : TypeGraph}

theorem reachFrom_missing {id : TypeId} {seen pending : List TypeId} (absent : g.shape? id = none) :
    g.reachFrom seen (id :: pending) = g.reachFrom seen pending := by
  rw [reachFrom]
  split
  · rfl
  · next shape found => rw [absent] at found; cases found

theorem reachFrom_again {id : TypeId} {seen pending : List TypeId} (member : id ∈ seen) :
    g.reachFrom seen (id :: pending) = g.reachFrom seen pending := by
  rw [reachFrom]
  split
  · rfl
  · exact dif_pos member

theorem reachFrom_fresh {id : TypeId} {seen pending : List TypeId} {shape : Shape}
    (found : g.shape? id = some shape) (unseen : id ∉ seen) :
    g.reachFrom seen (id :: pending) = g.reachFrom (id :: seen) (shape.references ++ pending) := by
  rw [reachFrom]
  split
  · next absent => rw [absent] at found; cases found
  · next other there =>
    obtain rfl : other = shape := Option.some.inj (there.symm.trans found)
    exact dif_neg unseen

theorem Alike.exists_shape? {h : TypeGraph} (alike : g.Alike h) {id : TypeId} {shape : Shape}
    (found : g.shape? id = some shape) :
    ∃ other, h.shape? id = some other ∧ other.references = shape.references := by
  cases shape with
  | base type => exact ⟨_, alike.base id type found, rfl⟩
  | typedef definition =>
    obtain ⟨comment, there⟩ := alike.typedef id definition found
    exact ⟨_, there, rfl⟩

theorem Alike.reachFrom {h : TypeGraph} (alike : g.Alike h) (seen pending : List TypeId) :
    h.reachFrom seen pending = g.reachFrom seen pending := by
  fun_induction g.reachFrom seen pending with
  | case1 seen => rw [TypeGraph.reachFrom]
  | case2 seen id pending absent ih => rw [reachFrom_missing (alike.missing id absent), ih]
  | case3 seen id pending shape found member ih => rw [reachFrom_again member, ih]
  | case4 seen id pending shape found unseen ih =>
    obtain ⟨other, there, references⟩ := alike.exists_shape? found
    rw [reachFrom_fresh there unseen, references, ih]

theorem Alike.reachable {h : TypeGraph} (alike : g.Alike h) : h.reachable = g.reachable := by
  funext roots
  exact alike.reachFrom [] roots

theorem reachable_of_shape? {h : TypeGraph} (same : h.shape? = g.shape?) :
    h.reachable = g.reachable :=
  (Alike.of_shape? (congrFun same)).reachable

end

end IdlDirectives.TypeGraph
