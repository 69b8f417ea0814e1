import IdlDirectives.Types.Basic

namespace IdlDirectives

inductive ResolveError where
  /-- The qualified names of the typedefs passed, ending with the first one met again. -/
  | cyclic (chain : List String)
  | dangling (id : TypeId)
deriving DecidableEq

namespace ResolveError

def message : ResolveError → String
  | .cyclic chain => "typedef chain " ++ " -> ".intercalate chain ++ " is cyclic"
  | .dangling id => "type #" ++ id.number.toNat.repr ++ " does not exist in the type graph"

end ResolveError

structure Resolved where
  id : TypeId
  type : BaseType
  depth : Nat
deriving DecidableEq

def unseen (size : Nat) (trail : List TypeId) : Nat :=
  (List.range size).countP (fun i => decide (∀ id ∈ trail, id.number.toNat ≠ i))

theorem unseen_cons_lt {size : Nat} {trail : List TypeId} {id : TypeId}
    (bound : id.number.toNat < size) (fresh : id ∉ trail) :
    unseen size (id :: trail) < unseen size trail := by
  have separate : ∀ other ∈ trail, other.number.toNat ≠ id.number.toNat := by
    intro other member same
    have : other = id := by
      cases other; cases id; congr; exact UInt32.toNat_inj.mp same
    exact fresh (this ▸ member)
  unfold unseen
  rw [List.countP_eq_length_filter, List.countP_eq_length_filter]
  have smaller : ((List.range size).filter
      (fun i => decide (∀ other ∈ id :: trail, other.number.toNat ≠ i))) =
      (((List.range size).filter (fun i => decide (∀ other ∈ trail, other.number.toNat ≠ i))).filter
        (fun i => decide (id.number.toNat ≠ i))) := by
    rw [List.filter_filter]
    congr 1
    funext i
    simp
  rw [smaller]
  have member : id.number.toNat ∈
      (List.range size).filter (fun i => decide (∀ other ∈ trail, other.number.toNat ≠ i)) := by
    simp only [List.mem_filter, List.mem_range, decide_eq_true_eq]
    exact ⟨bound, separate⟩
  exact List.length_filter_lt_length_iff_exists.mpr ⟨_, member, by simp⟩

namespace TypeGraph

theorem number_lt_size {g : TypeGraph} {id : TypeId} {shape : Shape} (h : g.shape? id = some shape) :
    id.number.toNat < g.size := by
  simp only [shape?, get?, Option.map_eq_some_iff] at h
  obtain ⟨node, found, _⟩ := h
  exact (Array.getElem?_eq_some_iff.mp found).1

def chainName (g : TypeGraph) (id : TypeId) : String :=
  match g.shape? id with
  | some (.typedef definition) => qualified definition.module definition.name
  | _ => "#" ++ id.number.toNat.repr

/-- Follows typedefs from `id`, having passed those of the trail, the last one first. -/
def resolveFrom (g : TypeGraph) (trail : List TypeId) (id : TypeId) : Except ResolveError Resolved :=
  match _found : g.shape? id with
  | none => .error (.dangling id)
  | some (.base type) => .ok ⟨id, type, trail.length⟩
  | some (.typedef definition) =>
    if _fresh : id ∈ trail then .error (.cyclic ((id :: trail).reverse.map g.chainName))
    else g.resolveFrom (id :: trail) definition.target
termination_by unseen g.size trail
decreasing_by exact unseen_cons_lt (number_lt_size _found) _fresh

theorem resolveFrom_eq (g : TypeGraph) (trail : List TypeId) (id : TypeId) :
    g.resolveFrom trail id =
      match g.shape? id with
      | none => .error (.dangling id)
      | some (.base type) => .ok ⟨id, type, trail.length⟩
      | some (.typedef definition) =>
        if id ∈ trail then .error (.cyclic ((id :: trail).reverse.map g.chainName))
        else g.resolveFrom (id :: trail) definition.target := by
  rw [resolveFrom]
  split
  · next found => rw [found]
  · next type found => rw [found]
  · next definition found => rw [found]; simp

def resolve (g : TypeGraph) (id : TypeId) : Except ResolveError Resolved :=
  g.resolveFrom [] id

end TypeGraph

end IdlDirectives
