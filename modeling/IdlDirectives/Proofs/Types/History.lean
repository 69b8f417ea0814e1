import IdlDirectives.Proofs.Types.Nodes
import IdlDirectives.Proofs.Types.Table
import Mathlib.Data.List.Induction

namespace IdlDirectives.TypeGraph

inductive Operation where
  | add (shape : Shape)
  | define (definition : Typedef)
  | register (module name : String) (id : TypeId)
  | setShape (id : TypeId) (shape : Shape)
deriving DecidableEq

namespace Operation

def added? : Operation → Option Shape
  | .add shape => some shape
  | .define definition => some (.typedef definition)
  | .register _ _ _ | .setShape _ _ => none

def name? : Operation → Option (String × String)
  | .define definition => some (definition.module, definition.name)
  | .register module name _ => some (module, name)
  | .add _ | .setShape _ _ => none

def named? (g : TypeGraph) : Operation → Option TypeId
  | .define _ => some g.nextId
  | .register _ _ id => some id
  | .add _ | .setShape _ _ => none

end Operation

def perform (g : TypeGraph) : Operation → TypeGraph
  | .add shape => g.add shape
  | .define definition => g.define definition
  | .register module name id => g.register module name id
  | .setShape id shape => g.setShape id shape

def build (ops : List Operation) : TypeGraph :=
  ops.foldl perform ∅

theorem build_snoc (ops : List Operation) (op : Operation) :
    build (ops ++ [op]) = (build ops).perform op := by
  rw [build, List.foldl_append]
  rfl

section

variable {g : TypeGraph} {id : TypeId} {module name : String}

theorem get?_add (shape : Shape) :
    (g.add shape).get? id = if id.number.toNat = g.size then some ⟨shape, none⟩ else g.get? id := by
  rw [get?, add, Array.getElem?_push]
  rfl

theorem get?_setShape (other : TypeId) (shape : Shape) :
    (g.setShape other shape).get? id =
      if other = id then (g.get? id).map ({ · with shape }) else g.get? id := by
  simp only [get?, setShape, Array.getElem?_modify, number_inj]

theorem get?_register (other : TypeId) : (g.register module name other).get? id = g.get? id := rfl

theorem lookup_register {module' name' : String} :
    (g.register module name id).lookup module' name' =
      if (module, name) = (module', name') then some id else g.lookup module' name' := by
  simp only [lookup, register, NameMap.get?_alter, Prod.mk.injEq]
  by_cases own : module' = module
  · subst own
    cases g.table.get? module' with
    | none => simp [NameMap.get?_insert, eq_comm]
    | some types => simp [NameMap.get?_insert, eq_comm]
  · simp [own, Ne.symm own]

end

section

variable {g : TypeGraph} {op : Operation} {id : TypeId}

theorem nextId_number (few : g.size < UInt32.size) : g.nextId.number.toNat = g.size :=
  UInt32.toNat_ofNat_of_lt' few

theorem get?_nextId (few : g.size < UInt32.size) : g.get? g.nextId = none := by
  rw [get?, nextId_number few]
  exact Array.getElem?_size

theorem size_perform (g : TypeGraph) (op : Operation) :
    (g.perform op).size = g.size + if op.added?.isSome then 1 else 0 := by
  cases op with
  | add shape => exact Array.size_push _
  | define definition => exact Array.size_push _
  | register => rfl
  | setShape => exact Array.size_modify

theorem size_build (ops : List Operation) : (build ops).size = ops.countP (·.added?.isSome) := by
  induction ops using List.reverseRecOn with
  | nil => rfl
  | append_singleton ops op ih =>
    rw [build_snoc, size_perform, ih, List.countP_append, List.countP_singleton]

theorem get?_perform_added (few : g.size < UInt32.size) {shape : Shape} (added : op.added? = some shape) :
    (g.perform op).get? g.nextId = some ⟨shape, none⟩ := by
  cases op with
  | add =>
    obtain rfl := Option.some.inj added
    rw [perform, get?_add, if_pos (nextId_number few)]
  | define =>
    obtain rfl := Option.some.inj added
    rw [perform, define, get?_register, get?_add, if_pos (nextId_number few)]
  | register => cases added
  | setShape => cases added

theorem get?_perform {node : Node} (there : g.get? id = some node) (kept : ∀ shape, op ≠ .setShape id shape) :
    (g.perform op).get? id = some node := by
  have old : id.number.toNat ≠ g.size := Nat.ne_of_lt (Array.getElem?_eq_some_iff.mp there).1
  cases op with
  | add => rw [perform, get?_add, if_neg old, there]
  | define => rw [perform, define, get?_register, get?_add, if_neg old, there]
  | register => rw [perform, get?_register, there]
  | setShape other shape =>
    have apart : other ≠ id := by
      intro same
      exact kept shape (same ▸ rfl)
    rw [perform, get?_setShape, if_neg apart, there]

theorem get?_foldl_perform {node : Node} {ops : List Operation} (there : g.get? id = some node)
    (kept : ∀ shape, .setShape id shape ∉ ops) : (ops.foldl perform g).get? id = some node := by
  induction ops generalizing g with
  | nil => exact there
  | cons op ops ih =>
    have here (shape : Shape) : op ≠ .setShape id shape := by
      intro same
      exact kept shape (same ▸ List.mem_cons_self)
    exact ih (get?_perform there here) (fun shape member => kept shape (List.mem_cons_of_mem op member))

end

section

variable {module name : String} {id : TypeId}

theorem named?_isSome (g : TypeGraph) (op : Operation) : (op.named? g).isSome = op.name?.isSome := by
  cases op <;> rfl

theorem lookup_perform (g : TypeGraph) (op : Operation) :
    (g.perform op).lookup module name =
      if op.name? = some (module, name) then op.named? g else g.lookup module name := by
  cases op with
  | add => rfl
  | define definition =>
    rw [perform, define, lookup_register]
    simp only [Operation.name?, Operation.named?, Option.some.injEq]
    rfl
  | register =>
    rw [perform, lookup_register]
    simp only [Operation.name?, Operation.named?, Option.some.injEq]
  | setShape => rfl

theorem concat_eq_split {ops before after : List Operation} {last op : Operation} :
    ops ++ [last] = before ++ op :: after ↔
      (ops = before ∧ last = op ∧ after = []) ∨ ∃ inner, ops = before ++ op :: inner ∧ after = inner ++ [last] := by
  constructor
  · intro cut
    rcases List.eq_nil_or_concat after with rfl | ⟨inner, final, rfl⟩
    · obtain ⟨rfl, same⟩ := List.append_inj' cut rfl
      exact .inl ⟨rfl, List.cons.inj same |>.1, rfl⟩
    · rw [List.concat_eq_append, ← List.cons_append, ← List.append_assoc] at cut
      obtain ⟨rfl, same⟩ := List.append_inj' cut rfl
      obtain rfl := (List.cons.inj same).1
      exact .inr ⟨inner, rfl, List.concat_eq_append⟩
  · intro split
    rcases split with ⟨rfl, rfl, rfl⟩ | ⟨inner, rfl, rfl⟩
    · rfl
    · simp

theorem lookup_build {ops : List Operation} :
    (build ops).lookup module name = some id ↔
      ∃ before op after, ops = before ++ op :: after ∧ op.name? = some (module, name) ∧
        op.named? (build before) = some id ∧ ∀ later ∈ after, later.name? ≠ some (module, name) := by
  -- on the history from its end: the last operation names the type or leaves the name alone
  induction ops using List.reverseRecOn with
  | nil =>
    refine iff_of_false (fun found => by cases found) ?_
    intro split
    obtain ⟨before, op, after, cut, -⟩ := split
    exact List.append_ne_nil_of_right_ne_nil before (List.cons_ne_nil op after) cut.symm
  | append_singleton ops last ih =>
    rw [build_snoc, lookup_perform]
    by_cases own : last.name? = some (module, name)
    · rw [if_pos own]
      constructor
      · intro named
        exact ⟨ops, last, [], rfl, own, named, by simp⟩
      · intro split
        obtain ⟨before, op, after, cut, -, named, silent⟩ := split
        rcases concat_eq_split.mp cut with ⟨rfl, rfl, rfl⟩ | ⟨inner, -, rfl⟩
        · exact named
        · exact absurd own (silent last (by simp))
    · rw [if_neg own, ih]
      constructor
      · intro split
        obtain ⟨before, op, after, rfl, names, named, silent⟩ := split
        refine ⟨before, op, after ++ [last], by simp, names, named, ?_⟩
        exact List.forall_mem_append.mpr ⟨silent, List.forall_mem_singleton.mpr own⟩
      · intro split
        obtain ⟨before, op, after, cut, names, named, silent⟩ := split
        rcases concat_eq_split.mp cut with ⟨rfl, rfl, rfl⟩ | ⟨inner, rfl, rfl⟩
        · exact absurd names own
        · exact ⟨before, op, inner, rfl, names, named, fun later member => silent later (by simp [member])⟩

theorem lookup_build_eq_none {ops : List Operation} :
    (build ops).lookup module name = none ↔ ∀ op ∈ ops, op.name? ≠ some (module, name) := by
  induction ops using List.reverseRecOn with
  | nil => exact iff_of_true rfl (by simp)
  | append_singleton ops last ih =>
    rw [build_snoc, lookup_perform]
    by_cases own : last.name? = some (module, name)
    · have named : last.named? (build ops) ≠ none := by
        rw [← Option.isSome_iff_ne_none, named?_isSome, own]
        rfl
      rw [if_pos own]
      exact iff_of_false named (fun none => none last (by simp) own)
    · rw [if_neg own, ih, List.forall_mem_append, List.forall_mem_singleton, and_iff_left own]

end

/-- In a history of fewer than 2 ^ 32 nodes each node gets the next number, which no node has had before. It
stays as it is until its own shape is replaced. A name stands for the type that it was given last, and the
table lists each name that was given, once, in the order of modules and then of names. -/
theorem build_follows_history {ops : List Operation} (few : ops.countP (·.added?.isSome) < UInt32.size) :
    (∀ before op after shape, ops = before ++ op :: after → op.added? = some shape →
      (build before).nextId.number.toNat = (build before).size ∧
        (build before).get? (build before).nextId = none ∧
        (build (before ++ [op])).get? (build before).nextId = some ⟨shape, none⟩ ∧
        (build (before ++ [op])).size = (build before).size + 1) ∧
      (∀ before after id node, ops = before ++ after → (build before).get? id = some node →
        (∀ shape, .setShape id shape ∉ after) → (build ops).get? id = some node) ∧
      (∀ before id shape other, (build (before ++ [.setShape id shape])).get? other =
        if id = other then ((build before).get? other).map ({ · with shape })
        else (build before).get? other) ∧
      (∀ module name id, (build ops).lookup module name = some id ↔
        ∃ before op after, ops = before ++ op :: after ∧ op.name? = some (module, name) ∧
          op.named? (build before) = some id ∧ ∀ later ∈ after, later.name? ≠ some (module, name)) ∧
      (∀ module name, (build ops).lookup module name = none ↔
        ∀ op ∈ ops, op.name? ≠ some (module, name)) ∧
      (∀ entry, entry ∈ (build ops).named ↔
        (build ops).lookup entry.module entry.name = some entry.id) ∧
      (build ops).named.Pairwise
        (fun a b => a.module < b.module ∨ (a.module = b.module ∧ a.name < b.name)) ∧
      ((build ops).named.map (fun entry => (entry.module, entry.name))).Nodup := by
  refine ⟨?_, ?_, ?_, fun _ _ _ => lookup_build, fun _ _ => lookup_build_eq_none, fun _ => mem_named,
    (build ops).named_sorted, (build ops).names_nodup⟩
  · intro before op after shape cut added
    have few : (build before).size < UInt32.size := by
      rw [size_build]
      rw [cut, List.countP_append] at few
      omega
    have one : (if op.added?.isSome then 1 else 0) = 1 := by rw [added]; rfl
    rw [build_snoc, size_perform, one]
    exact ⟨nextId_number few, get?_nextId few, get?_perform_added few added, rfl⟩
  · intro before after id node cut there kept
    rw [build, cut, List.foldl_append]
    exact get?_foldl_perform there kept
  · intro before id shape other
    rw [build_snoc]
    exact get?_setShape id shape

def early : List Operation :=
  [.register "M" "b" ⟨1⟩, .add (.base (.scalar .int)),
    .define { module := "M", name := "a", comment := "", target := ⟨0⟩ }]

def late : List Operation :=
  [.register "A" "z" ⟨7⟩, .setShape ⟨0⟩ (.base (.list ⟨1⟩)), .register "M" "a" ⟨0⟩]

theorem build_follows_renaming :
    (early ++ late).countP (·.added?.isSome) < UInt32.size ∧
      (build (early.take 2)).nextId.number.toNat = (build (early.take 2)).size ∧
      (build (early ++ late)).get? ⟨1⟩ =
        some ⟨.typedef { module := "M", name := "a", comment := "", target := ⟨0⟩ }, none⟩ ∧
      (build (early ++ late)).lookup "M" "a" = some ⟨0⟩ ∧
      (build (early ++ late)).lookup "A" "a" = none ∧
      ⟨"A", "z", ⟨7⟩⟩ ∈ (build (early ++ late)).named := by
  have few : (early ++ late).countP (·.added?.isSome) < UInt32.size := by decide
  obtain ⟨numbers, keeps, -, lookup, absent, listed, -, -⟩ := build_follows_history few
  refine ⟨few, ?_, ?_, ?_, ?_, ?_⟩
  · exact (numbers (early.take 2) _ late _ rfl rfl).1
  · exact keeps early late ⟨1⟩ _ rfl rfl (by simp [late])
  · exact (lookup "M" "a" ⟨0⟩).mpr ⟨early ++ late.take 2, _, [], rfl, rfl, rfl, by simp⟩
  · exact (absent "A" "a").mpr (by decide)
  · refine (listed ⟨"A", "z", ⟨7⟩⟩).mpr ((lookup "A" "z" ⟨7⟩).mpr ?_)
    exact ⟨early, _, late.drop 1, rfl, rfl, rfl, by decide⟩

end IdlDirectives.TypeGraph
