import IdlDirectives.Types.Resolution
import Mathlib.Data.List.Nodup
import Mathlib.Data.List.Perm.Subperm

namespace IdlDirectives.TypeGraph

def typedef? (g : TypeGraph) (id : TypeId) : Option Typedef :=
  match g.shape? id with
  | some (.typedef definition) => some definition
  | _ => none

/-- Where so many steps lead from `start`, each from a typedef to its target. -/
def link? (g : TypeGraph) (start : TypeId) : Nat → Option TypeId
  | 0 => some start
  | steps + 1 => (g.link? start steps).bind (fun id => (g.typedef? id).map (·.target))

/-- The sequence of `start` is at `id` after the types in `passed`, which are all different. -/
structure Followed (g : TypeGraph) (start : TypeId) (passed : List TypeId) (id : TypeId) : Prop where
  distinct : passed.Nodup
  links : ∀ steps ≤ passed.length, g.link? start steps = (passed ++ [id])[steps]?

section

variable {g : TypeGraph} {start id : TypeId} {passed : List TypeId}

theorem typedef?_eq_some {definition : Typedef} :
    g.typedef? id = some definition ↔ g.shape? id = some (.typedef definition) := by
  unfold typedef?
  match g.shape? id with
  | none => simp
  | some (.base type) => simp
  | some (.typedef other) => simp

theorem typedef?_base {type : BaseType} (found : g.shape? id = some (.base type)) :
    g.typedef? id = none := by
  rw [typedef?, found]

theorem typedef?_missing (absent : g.shape? id = none) : g.typedef? id = none := by
  rw [typedef?, absent]

theorem link?_succ_eq_some {steps : Nat} {other : TypeId} :
    g.link? start (steps + 1) = some other ↔
      ∃ id definition, g.link? start steps = some id ∧ g.typedef? id = some definition ∧
        definition.target = other := by
  simp only [link?, Option.bind_eq_some_iff, Option.map_eq_some_iff]
  constructor
  · intro found
    obtain ⟨id, there, definition, typedef, target⟩ := found
    exact ⟨id, definition, there, typedef, target⟩
  · intro found
    obtain ⟨id, definition, there, typedef, target⟩ := found
    exact ⟨id, there, definition, typedef, target⟩

theorem link?_isSome_of_le {early late : Nat} (order : early ≤ late)
    (there : (g.link? start late).isSome) : (g.link? start early).isSome := by
  induction order with
  | refl => exact there
  | @step late _ ih =>
    obtain ⟨other, found⟩ := Option.isSome_iff_exists.mp there
    obtain ⟨id, _, before, _⟩ := link?_succ_eq_some.mp found
    exact ih (by rw [before]; rfl)

theorem le_of_link?_end {last steps : Nat} (reached : g.link? start last = some id)
    (ends : g.typedef? id = none) (there : (g.link? start steps).isSome) : steps ≤ last := by
  by_contra beyond
  have next : (g.link? start (last + 1)).isSome := link?_isSome_of_le (by omega) there
  simp [link?, reached, ends] at next

theorem link?_end_unique {other : TypeId} {first second : Nat}
    (reached : g.link? start first = some id) (ends : g.typedef? id = none)
    (reached' : g.link? start second = some other) (ends' : g.typedef? other = none) :
    first = second ∧ id = other := by
  have before : second ≤ first := le_of_link?_end reached ends (by rw [reached']; rfl)
  have after : first ≤ second := le_of_link?_end reached' ends' (by rw [reached]; rfl)
  obtain rfl := Nat.le_antisymm after before
  exact ⟨rfl, Option.some.inj (reached.symm.trans reached')⟩

theorem Followed.none (start : TypeId) : g.Followed start [] start where
  distinct := .nil
  links steps bound := by
    obtain rfl := Nat.le_zero.mp bound
    rfl

theorem Followed.reached (followed : g.Followed start passed id) :
    g.link? start passed.length = some id := by
  rw [followed.links _ (Nat.le_refl _)]
  simp

theorem Followed.snoc {definition : Typedef} (followed : g.Followed start passed id)
    (fresh : id ∉ passed) (typedef : g.typedef? id = some definition) :
    g.Followed start (passed ++ [id]) definition.target where
  distinct :=
    List.Nodup.append followed.distinct (List.nodup_singleton id) (List.disjoint_singleton.mpr fresh)
  links steps bound := by
    rw [List.length_append, List.length_singleton] at bound
    rcases Nat.lt_or_eq_of_le bound with early | rfl
    · have inside : steps < (passed ++ [id]).length := by simpa using early
      rw [followed.links steps (Nat.le_of_lt_succ early), List.getElem?_append_left inside]
    · have last : g.link? start (passed.length + 1) = some definition.target :=
        link?_succ_eq_some.mpr ⟨id, definition, followed.reached, typedef, rfl⟩
      rw [last]
      simp

theorem Followed.target {other : TypeId} (followed : g.Followed start passed id)
    (member : other ∈ passed) :
    ∃ definition, g.typedef? other = some definition ∧ definition.target ∈ passed ++ [id] := by
  obtain ⟨steps, bound, rfl⟩ := List.mem_iff_getElem.mp member
  have inside : steps + 1 < (passed ++ [id]).length := by simpa using bound
  have next : g.link? start (steps + 1) = some (passed ++ [id])[steps + 1] :=
    (followed.links _ bound).trans (List.getElem?_eq_getElem inside)
  have here : g.link? start steps = some passed[steps] := by
    rw [followed.links steps (Nat.le_of_lt bound), List.getElem?_append_left bound,
      List.getElem?_eq_getElem bound]
  obtain ⟨before, definition, there, typedef, target⟩ := link?_succ_eq_some.mp next
  obtain rfl : passed[steps] = before := Option.some.inj (here.symm.trans there)
  exact ⟨definition, typedef, target ▸ List.getElem_mem inside⟩

theorem Followed.length_le (followed : g.Followed start passed id) : passed.length ≤ g.size := by
  have numbers : (passed.map (·.number.toNat)).Nodup := by
    refine List.Nodup.map ?_ followed.distinct
    intro a b same
    obtain ⟨number⟩ := a
    obtain ⟨number'⟩ := b
    exact congrArg TypeId.mk (UInt32.toNat_inj.mp same)
  have bounded : passed.map (·.number.toNat) ⊆ List.range g.size := by
    intro number member
    obtain ⟨other, passedBy, rfl⟩ := List.mem_map.mp member
    obtain ⟨definition, typedef, _⟩ := followed.target passedBy
    exact List.mem_range.mpr (number_lt_size (typedef?_eq_some.mp typedef))
  simpa using (numbers.subperm bounded).length_le

theorem mem_of_again {other : TypeId} (again : id ∈ passed) (member : other ∈ passed ++ [id]) :
    other ∈ passed := by
  rcases List.mem_append.mp member with member | last
  · exact member
  · exact List.mem_singleton.mp last ▸ again

theorem Followed.endless (followed : g.Followed start passed id) (again : id ∈ passed) (steps : Nat) :
    ∃ other ∈ passed, g.link? start steps = some other := by
  induction steps with
  | zero =>
    have first : g.link? start 0 = (passed ++ [id])[0]? := followed.links 0 (Nat.zero_le _)
    exact ⟨start, mem_of_again again (List.mem_of_getElem? first.symm), rfl⟩
  | succ steps ih =>
    obtain ⟨other, member, there⟩ := ih
    obtain ⟨definition, typedef, onward⟩ := followed.target member
    exact ⟨definition.target, mem_of_again again onward,
      link?_succ_eq_some.mpr ⟨other, definition, there, typedef, rfl⟩⟩

/-- What resolving comes to, by how the sequence of `start` goes. -/
inductive Ends (g : TypeGraph) (start : TypeId) : Except ResolveError Resolved → Prop where
  | base {passed : List TypeId} {id : TypeId} {type : BaseType} (followed : g.Followed start passed id)
    (found : g.shape? id = some (.base type)) : Ends g start (.ok ⟨id, type, passed.length⟩)
  | missing {passed : List TypeId} {id : TypeId} (followed : g.Followed start passed id)
    (absent : g.shape? id = none) : Ends g start (.error (.dangling id))
  | again {passed : List TypeId} {id : TypeId} (followed : g.Followed start passed id)
    (member : id ∈ passed) : Ends g start (.error (.cyclic ((passed ++ [id]).map g.chainName)))

theorem resolveFrom_ends {trail : List TypeId} (followed : g.Followed start trail.reverse id) :
    g.Ends start (g.resolveFrom trail id) := by
  fun_induction g.resolveFrom trail id with
  | case1 trail id absent => exact .missing followed absent
  | case2 trail id type found =>
    rw [← List.length_reverse]
    exact .base followed found
  | case3 trail id definition found again =>
    rw [List.reverse_cons]
    exact .again followed (List.mem_reverse.mpr again)
  | case4 trail id definition found fresh ih =>
    apply ih
    rw [List.reverse_cons]
    exact followed.snoc (by simpa using fresh) (typedef?_eq_some.mpr found)

theorem resolve_ends (g : TypeGraph) (start : TypeId) : g.Ends start (g.resolve start) :=
  resolveFrom_ends (.none start)

theorem Ends.of_last {result : Except ResolveError Resolved} {steps : Nat} (ends : g.Ends start result)
    (reached : g.link? start steps = some id) (last : g.typedef? id = none) :
    result =
      match g.shape? id with
      | some (.base type) => .ok ⟨id, type, steps⟩
      | _ => .error (.dangling id) := by
  cases ends with
  | base followed found =>
    obtain ⟨rfl, rfl⟩ := link?_end_unique followed.reached (typedef?_base found) reached last
    rw [found]
  | missing followed absent =>
    obtain ⟨rfl, rfl⟩ := link?_end_unique followed.reached (typedef?_missing absent) reached last
    rw [absent]
  | again followed member =>
    obtain ⟨other, passed, there⟩ := followed.endless member (steps + 1)
    simp [link?, reached, last] at there

theorem resolve_eq_ok {resolved : Resolved} :
    g.resolve start = .ok resolved ↔
      g.link? start resolved.depth = some resolved.id ∧ g.shape? resolved.id = some (.base resolved.type) := by
  have ends := g.resolve_ends start
  constructor
  · intro resolves
    rw [resolves] at ends
    cases ends with
    | base followed found => exact ⟨followed.reached, found⟩
  · intro ended
    obtain ⟨reached, found⟩ := ended
    have result := ends.of_last reached (typedef?_base found)
    rwa [found] at result

theorem resolve_eq_dangling :
    g.resolve start = .error (.dangling id) ↔
      (∃ steps, g.link? start steps = some id) ∧ g.shape? id = none := by
  have ends := g.resolve_ends start
  constructor
  · intro resolves
    rw [resolves] at ends
    cases ends with
    | missing followed absent => exact ⟨⟨_, followed.reached⟩, absent⟩
  · intro ended
    obtain ⟨⟨steps, reached⟩, absent⟩ := ended
    have result := ends.of_last reached (typedef?_missing absent)
    rwa [absent] at result

theorem resolve_cyclic_iff :
    (∃ chain, g.resolve start = .error (.cyclic chain)) ↔
      ∀ steps, (g.link? start steps).isSome := by
  have ends := g.resolve_ends start
  constructor
  · intro cyclic steps
    obtain ⟨chain, resolves⟩ := cyclic
    rw [resolves] at ends
    cases ends with
    | again followed member =>
      obtain ⟨other, passed, there⟩ := followed.endless member steps
      rw [there]
      rfl
  · intro endless
    generalize g.resolve start = result at ends ⊢
    cases ends with
    | @base passed id _ followed found =>
      have beyond := le_of_link?_end followed.reached (typedef?_base found) (endless (passed.length + 1))
      omega
    | @missing passed id followed absent =>
      have beyond :=
        le_of_link?_end followed.reached (typedef?_missing absent) (endless (passed.length + 1))
      omega
    | again followed member => exact ⟨_, rfl⟩

theorem resolve_cyclic {chain : List String} (resolves : g.resolve start = .error (.cyclic chain)) :
    ∃ (passed : List TypeId) (again : TypeId) (definitions : List Typedef),
      g.Followed start passed again ∧ again ∈ passed ∧
      (passed ++ [again]).map g.typedef? = definitions.map some ∧
      chain = definitions.map (fun d => qualified d.module d.name) := by
  have ends := g.resolve_ends start
  rw [resolves] at ends
  cases ends with
  | @again passed id followed member =>
    have typedefs : ∀ other ∈ passed ++ [id], ∃ definition, g.typedef? other = some definition := by
      intro other there
      obtain ⟨definition, typedef, _⟩ := followed.target (mem_of_again member there)
      exact ⟨definition, typedef⟩
    refine ⟨passed, id, (passed ++ [id]).filterMap g.typedef?, followed, member, ?_⟩
    generalize passed ++ [id] = types at typedefs
    induction types with
    | nil => exact ⟨rfl, rfl⟩
    | cons first rest ih =>
      obtain ⟨definition, typedef⟩ := typedefs first List.mem_cons_self
      obtain ⟨same, names⟩ := ih (fun other there => typedefs other (List.mem_cons_of_mem _ there))
      have name : g.chainName first = qualified definition.module definition.name := by
        rw [chainName, typedef?_eq_some.mp typedef]
      simp [typedef, name, same, names]

end

/-- Resolving a type gives the end of its sequence, with the number of steps to there; it fails for a
type that is not there at the end, and it reports a cycle if there is no end. The steps are at most as
many as the types of the graph, and the cycle is told by the names of the typedefs passed, each once,
and then of the first one that comes again. -/
theorem resolve_follows (g : TypeGraph) (start : TypeId) :
    (∀ id type depth, g.resolve start = .ok ⟨id, type, depth⟩ ↔
      g.link? start depth = some id ∧ g.shape? id = some (.base type)) ∧
    (∀ resolved, g.resolve start = .ok resolved → resolved.depth ≤ g.size) ∧
    (∀ id, g.resolve start = .error (.dangling id) ↔
      (∃ steps, g.link? start steps = some id) ∧ g.shape? id = none) ∧
    ((∃ chain, g.resolve start = .error (.cyclic chain)) ↔
      ∀ steps, (g.link? start steps).isSome) ∧
    ∀ chain, g.resolve start = .error (.cyclic chain) →
      ∃ (passed : List TypeId) (again : TypeId) (definitions : List Typedef),
        g.Followed start passed again ∧ again ∈ passed ∧
        (passed ++ [again]).map g.typedef? = definitions.map some ∧
        (ResolveError.cyclic chain).message =
          "typedef chain " ++
            " -> ".intercalate (definitions.map (fun d => qualified d.module d.name)) ++ " is cyclic" := by
  refine ⟨fun id type depth => resolve_eq_ok, ?_, fun id => resolve_eq_dangling, resolve_cyclic_iff, ?_⟩
  · intro resolved resolves
    have ends := g.resolve_ends start
    rw [resolves] at ends
    cases ends with
    | base followed found => exact followed.length_le
  · intro chain resolves
    obtain ⟨passed, again, definitions, followed, member, typedefs, rfl⟩ := resolve_cyclic resolves
    exact ⟨passed, again, definitions, followed, member, typedefs, rfl⟩

def bead (name : String) (target : TypeId) : Node where
  shape := .typedef { module := "M", name, comment := "", target }
  annotations := none

def lasso : TypeGraph where
  nodes := #[bead "a" ⟨1⟩, bead "b" ⟨2⟩, bead "c" ⟨1⟩]
  table := ∅

theorem resolve_follows_lasso :
    lasso.resolve ⟨0⟩ = .error (.cyclic ["M.a", "M.b", "M.c", "M.b"]) ∧
      ∃ (passed : List TypeId) (again : TypeId) (definitions : List Typedef),
        lasso.Followed ⟨0⟩ passed again ∧ again ∈ passed ∧
        (passed ++ [again]).map lasso.typedef? = definitions.map some ∧
        (ResolveError.cyclic ["M.a", "M.b", "M.c", "M.b"]).message =
          "typedef chain " ++
            " -> ".intercalate (definitions.map (fun d => qualified d.module d.name)) ++ " is cyclic" := by
  have resolves : lasso.resolve ⟨0⟩ = .error (.cyclic ["M.a", "M.b", "M.c", "M.b"]) := by decide +kernel
  exact ⟨resolves, (resolve_follows lasso ⟨0⟩).2.2.2.2 _ resolves⟩

end IdlDirectives.TypeGraph
