import IdlDirectives.Types.Resolution

namespace IdlDirectives.TypeGraph

/-- Adds to the nodes already seen all that can be reached from the pending ones. -/
def reachFrom (g : TypeGraph) (seen : List TypeId) : List TypeId → List TypeId
  | [] => seen
  | id :: pending =>
    match _found : g.shape? id with
    | none => g.reachFrom seen pending
    | some shape =>
      if _fresh : id ∈ seen then g.reachFrom seen pending
      else g.reachFrom (id :: seen) (shape.references ++ pending)
termination_by pending => (unseen g.size seen, pending.length)
decreasing_by
  · exact .right _ (by simp)
  · exact .right _ (by simp)
  · exact .left _ _ (unseen_cons_lt (number_lt_size _found) _fresh)

def reachable (g : TypeGraph) (roots : List TypeId) : List TypeId :=
  g.reachFrom [] roots

end IdlDirectives.TypeGraph
