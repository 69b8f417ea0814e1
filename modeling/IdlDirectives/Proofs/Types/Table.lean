import IdlDirectives.Proofs.NameMap
import IdlDirectives.Types.Basic

namespace IdlDirectives.TypeGraph

def Entry.Before (a b : Entry) : Prop :=
  a.module < b.module ∨ (a.module = b.module ∧ a.name < b.name)

theorem Entry.Before.irrefl (a : Entry) : ¬ a.Before a := by
  intro before
  rcases before with before | ⟨_, before⟩
  · exact Std.lt_irrefl before
  · exact Std.lt_irrefl before

theorem named_sorted (g : TypeGraph) : g.named.Pairwise Entry.Before := by
  refine List.pairwise_flatMap.mpr ⟨?_, ?_⟩
  · intro types _
    refine List.pairwise_map.mpr (types.2.sorted.imp ?_)
    intro a b before
    exact .inr ⟨rfl, before⟩
  · apply g.table.sorted.imp
    intro types later before a mine b theirs
    obtain ⟨_, _, rfl⟩ := List.mem_map.mp mine
    obtain ⟨_, _, rfl⟩ := List.mem_map.mp theirs
    exact .inl before

theorem named_nodup (g : TypeGraph) : g.named.Nodup := by
  apply g.named_sorted.imp
  intro a b before same
  subst same
  exact Entry.Before.irrefl a before

theorem lookup_of_mem_named {g : TypeGraph} {entry : Entry} (member : entry ∈ g.named) :
    g.lookup entry.module entry.name = some entry.id := by
  obtain ⟨types, there, member⟩ := List.mem_flatMap.mp member
  obtain ⟨named, own, rfl⟩ := List.mem_map.mp member
  rw [lookup, NameMap.get?_of_mem there, Option.bind_some, NameMap.get?_of_mem own]

theorem mem_named {g : TypeGraph} {entry : Entry} :
    entry ∈ g.named ↔ g.lookup entry.module entry.name = some entry.id := by
  refine ⟨lookup_of_mem_named, ?_⟩
  intro found
  obtain ⟨types, there, own⟩ := Option.bind_eq_some_iff.mp found
  exact List.mem_flatMap.mpr
    ⟨_, NameMap.mem_of_get? there, List.mem_map.mpr ⟨_, NameMap.mem_of_get? own, rfl⟩⟩

theorem names_nodup (g : TypeGraph) : (g.named.map (fun entry => (entry.module, entry.name))).Nodup := by
  refine List.pairwise_map.mpr (g.named_sorted.imp ?_)
  intro a b before same
  obtain ⟨module, name⟩ := Prod.mk.inj same
  rcases before with before | ⟨_, before⟩
  · exact Std.lt_irrefl (module ▸ before)
  · exact Std.lt_irrefl (name ▸ before)

def timesNamed (g : TypeGraph) (id : TypeId) : Nat :=
  g.named.countP (·.id = id)

theorem timesNamed_eq_one {g : TypeGraph} {entry : Entry} (member : entry ∈ g.named)
    (alone : ∀ other ∈ g.named, other.id = entry.id → other = entry) :
    g.timesNamed entry.id = 1 := by
  have same : g.named.countP (·.id = entry.id) = g.named.countP (· == entry) := by
    apply List.countP_congr
    intro other there
    constructor
    · intro own
      simpa using alone other there (by simpa using own)
    · intro equal
      simpa using congrArg Entry.id (eq_of_beq equal)
  rw [timesNamed, same]
  exact g.named_nodup.count.trans (if_pos member)

end IdlDirectives.TypeGraph
