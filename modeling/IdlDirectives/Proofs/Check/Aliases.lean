import IdlDirectives.Proofs.Check.Merge
import IdlDirectives.Proofs.Types.Resolution

namespace IdlDirectives

def SelectionError.rootNamed (name : StructureName) (path : List String) : SelectionError → SelectionError
  | .unknownField field within => .unknownField field (if path = [field] then name else within)
  | e => e

theorem SelectionError.rootNamed_eq_self {path : List String} {e : SelectionError}
    (elsewhere : ∀ field within, path = [field] → e ≠ .unknownField field within) (name : StructureName) :
    e.rootNamed name path = e := by
  cases e with
  | unknownField field within =>
    have deeper : path ≠ [field] := fun root => elsewhere field within root rfl
    rw [rootNamed, if_neg deeper]
  | _ => rfl

namespace TypeGraph

def FailsAt (g : TypeGraph) (ofKeys : Bool) (base : TypeId) (s : Selection) (path : List String)
    (e : SelectionError) : Prop :=
  ∃ before after, s.walk = before ++ path :: after ∧ g.Offends ofKeys base s path e ∧
    ∀ earlier ∈ before, ∀ e', ¬ g.Offends ofKeys base s earlier e'

variable {g : TypeGraph} {ofKeys : Bool} {base other : TypeId} {s : Selection} {path : List String}
  {node : Branches} {selector : String} {e : SelectionError}

theorem check_eq_error : g.check ofKeys base s = .error e ↔ ∃ path, g.FailsAt ofKeys base s path e := by
  have verdict : IsVerdict (g.Offends ofKeys base s) s.walk (g.check ofKeys base s) := check_verdict
  constructor
  · intro refused
    rw [refused] at verdict
    obtain ⟨before, path, after, first⟩ := verdict
    exact ⟨path, before, after, first⟩
  · intro failed
    obtain ⟨path, before, after, first⟩ := failed
    have refused : IsVerdict (g.Offends ofKeys base s) s.walk (.error e) := ⟨before, path, after, first⟩
    exact verdict.unique (fun _ _ _ _ h h' => h.unique h') refused

theorem structureName_typedef {definition : Typedef} (found : g.shape? base = some (.typedef definition)) :
    g.structureName base path = .declared definition.module definition.name := by
  rw [structureName, found]

theorem structureName_base {type : BaseType} (found : g.shape? base = some (.base type)) :
    g.structureName base path = .reached path := by
  rw [structureName, found]

section

variable {resolved resolved' : Resolved} (resolves : g.resolve base = .ok resolved)
  (resolves' : g.resolve other = .ok resolved') (same : resolved'.type = resolved.type)

include resolves resolves' same

theorem follow?_cons_of_type : g.follow? other (selector :: path) = g.follow? base (selector :: path) := by
  have first : g.step? other selector = g.step? base selector := by
    simp only [step?, resolves, resolves', same]
  simp only [follow?, List.foldlM_cons, first]

theorem NodeFault.of_type (fault : NodeFault g ofKeys base path node e) :
    NodeFault g ofKeys other path node e := by
  cases fault with
  | unresolved unresolved =>
    rw [resolves] at unresolved
    cases unresolved
  | keysOfNonMapping found keys terminal noMapping =>
    rw [resolves] at found
    cases found
    rw [← same] at noMapping ⊢
    exact .keysOfNonMapping resolves' keys terminal noMapping

theorem SelectorFault.of_type (fault : SelectorFault g base [] node selector e) :
    SelectorFault g other [] node selector (e.rootNamed (g.structureName other []) [selector]) := by
  cases fault with
  | unknownField found struct absent =>
    rw [resolves] at found
    cases found
    rw [SelectionError.rootNamed, if_pos rfl]
    exact .unknownField resolves' (same.trans struct) absent
  | notListSelector found list different =>
    rw [resolves] at found
    cases found
    exact .notListSelector resolves' (same.trans list) different
  | notMappingSelector found mapping different =>
    rw [resolves] at found
    cases found
    exact .notMappingSelector resolves' (same.trans mapping) different
  | unsupported found closed =>
    rw [resolves] at found
    cases found
    rw [← same] at closed ⊢
    exact .unsupported resolves' closed

end

theorem NodeFault.ne_unknownField (fault : NodeFault g ofKeys base path node e) (field : String)
    (within : StructureName) : e ≠ .unknownField field within := by
  intro same
  subst same
  cases fault

section

variable {resolved resolved' : Resolved} (resolves : g.resolve base = .ok resolved)
  (resolves' : g.resolve other = .ok resolved') (same : resolved'.type = resolved.type)

include resolves resolves' same

theorem Offends.of_type (offence : g.Offends ofKeys base s path e) :
    g.Offends ofKeys other s path (e.rootNamed (g.structureName other []) path) := by
  cases offence with
  | @node path node id _ there reached fault =>
    rw [SelectionError.rootNamed_eq_self (fun field within _ => fault.ne_unknownField field within)]
    cases path with
    | nil =>
      obtain rfl := Option.some.inj reached
      exact .node there rfl (fault.of_type resolves resolves' same)
    | cons first path =>
      rw [← follow?_cons_of_type resolves resolves' same] at reached
      exact .node there reached fault
  | @selector path node id selector _ there reached fault =>
    cases path with
    | nil =>
      obtain rfl := Option.some.inj reached
      exact .selector there rfl (fault.of_type resolves resolves' same)
    | cons first path =>
      have deeper (field : String) : first :: path ++ [selector] ≠ [field] := by simp
      rw [SelectionError.rootNamed_eq_self (fun field _ root => absurd root (deeper field))]
      rw [← follow?_cons_of_type resolves resolves' same] at reached
      exact .selector there reached fault

theorem FailsAt.of_type (failed : g.FailsAt ofKeys base s path e) :
    g.FailsAt ofKeys other s path (e.rootNamed (g.structureName other []) path) := by
  obtain ⟨before, after, walk, offence, fine⟩ := failed
  refine ⟨before, after, walk, offence.of_type resolves resolves' same, ?_⟩
  intro earlier member e' offence'
  exact fine earlier member _ (offence'.of_type resolves' resolves same.symm)

end

theorem FailsAt.eq_structureName {field : String} {name : StructureName}
    (failed : g.FailsAt ofKeys base s [field] (.unknownField field name)) :
    name = g.structureName base [] := by
  obtain ⟨-, -, -, offence, -⟩ := failed
  generalize root : [field] = path at offence
  cases offence with
  | node _ _ fault => cases fault
  | selector _ reached fault =>
    obtain ⟨rfl, -⟩ := List.append_inj' ((List.nil_append _).trans root) rfl
    obtain rfl := Option.some.inj reached
    cases fault with
    | unknownField => rfl

/-- A check from a typedef and one from the type that it stands for come to the same end. They stop at the
same path with the same error, unless the structure at the root lacks a field: then the typedef gives its
own name for the structure, and the type that it stands for is called the root. -/
theorem check_from_typedef {resolved : Resolved} (resolves : g.resolve base = .ok resolved) (ofKeys : Bool)
    (s : Selection) :
    (g.check ofKeys base s = .ok () ↔ g.check ofKeys resolved.id s = .ok ()) ∧
      (∀ id e, g.check ofKeys id s = .error e ↔ ∃ path, g.FailsAt ofKeys id s path e) ∧
      (∀ path e, (∀ field name, path = [field] → e ≠ .unknownField field name) →
        (g.FailsAt ofKeys base s path e ↔ g.FailsAt ofKeys resolved.id s path e)) ∧
      (∀ field,
        (∃ name, g.FailsAt ofKeys base s [field] (.unknownField field name)) ↔
          ∃ name, g.FailsAt ofKeys resolved.id s [field] (.unknownField field name)) ∧
      (∀ field name, g.FailsAt ofKeys resolved.id s [field] (.unknownField field name) →
        name.text = "'<root>'") ∧
      (∀ definition, g.shape? base = some (.typedef definition) → ∀ field name,
        g.FailsAt ofKeys base s [field] (.unknownField field name) →
          name.text = definition.module ++ "." ++ definition.name) ∧
      ∀ type, g.shape? base = some (.base type) → resolved.id = base := by
  have resolves' := resolve_resolved resolves
  refine ⟨(check_resolved resolves).symm, fun id e => check_eq_error, ?_, ?_, ?_, ?_, ?_⟩
  · intro path e elsewhere
    constructor
    · intro failed
      have there := failed.of_type resolves resolves' rfl
      rwa [SelectionError.rootNamed_eq_self elsewhere] at there
    · intro failed
      have there := failed.of_type resolves' resolves rfl
      rwa [SelectionError.rootNamed_eq_self elsewhere] at there
  · intro field
    constructor
    · intro failed
      obtain ⟨name, failed⟩ := failed
      exact ⟨_, failed.of_type resolves resolves' rfl⟩
    · intro failed
      obtain ⟨name, failed⟩ := failed
      exact ⟨_, failed.of_type resolves' resolves rfl⟩
  · intro field name failed
    rw [failed.eq_structureName, structureName_base (shape?_of_resolveFrom resolves)]
    rfl
  · intro definition typedef field name failed
    rw [failed.eq_structureName, structureName_typedef typedef]
    rfl
  · intro type found
    rw [resolve, resolveFrom_eq, found] at resolves
    cases resolves
    rfl

def recurrent : TypeGraph where
  nodes := #[⟨.base (.struct [⟨"a", ⟨1⟩⟩]), none⟩, bead "T" ⟨0⟩, bead "U" ⟨1⟩]
  table := ∅

theorem check_from_typedef_recurrent :
    let resolved : Resolved := ⟨⟨0⟩, .struct [⟨"a", ⟨1⟩⟩], 2⟩
    let missing : SelectionError := .unknownField "x" (.declared "M" "T")
    recurrent.resolve ⟨2⟩ = .ok resolved ∧
      (∃ name, recurrent.FailsAt false ⟨2⟩ (Selection.whole.insert ["x"]) ["x"] (.unknownField "x" name) ∧
        name.text = "M.U") ∧
      (∃ name, recurrent.FailsAt false ⟨0⟩ (Selection.whole.insert ["x"]) ["x"] (.unknownField "x" name) ∧
        name.text = "'<root>'") ∧
      ∃ path, recurrent.FailsAt false ⟨2⟩ (Selection.whole.insert ["a", "x"]) path missing ∧
        recurrent.FailsAt false ⟨0⟩ (Selection.whole.insert ["a", "x"]) path missing := by
  intro resolved missing
  have resolves : recurrent.resolve ⟨2⟩ = .ok resolved := by decide +kernel
  have bare : recurrent.resolve ⟨0⟩ = .ok ⟨⟨0⟩, resolved.type, 0⟩ := by decide +kernel
  obtain ⟨-, -, -, atRoot, rootName, typedefName, -⟩ :=
    check_from_typedef resolves false (Selection.whole.insert ["x"])
  obtain ⟨-, failed, below, -, rootName', -⟩ :=
    check_from_typedef resolves false (Selection.whole.insert ["a", "x"])
  have here : ∃ name,
      recurrent.FailsAt false ⟨0⟩ (Selection.whole.insert ["x"]) ["x"] (.unknownField "x" name) := by
    have absent : ∀ field ∈ [Field.mk "a" ⟨1⟩], field.name ≠ "x" := by decide
    have offence : recurrent.Offends false ⟨0⟩ (Selection.whole.insert ["x"]) ([] ++ ["x"]) _ :=
      .selector rfl rfl (.unknownField bare rfl absent)
    refine ⟨_, [[]], [], rfl, offence, ?_⟩
    intro earlier member e' offence
    obtain rfl := List.mem_singleton.mp member
    cases offends_root.mp offence with
    | unresolved unresolved =>
      rw [bare] at unresolved
      cases unresolved
    | keysOfNonMapping _ keys => cases keys
  obtain ⟨name, there⟩ := (atRoot "x").mpr here
  obtain ⟨name', here⟩ := here
  refine ⟨resolves, ⟨name, there, typedefName _ rfl "x" name there⟩, ⟨name', here, rootName "x" name' here⟩, ?_⟩
  obtain ⟨path, deep⟩ := (failed ⟨0⟩ missing).mp (by decide +kernel)
  have elsewhere (field : String) (within : StructureName) (root : path = [field]) :
      missing ≠ .unknownField field within := by
    intro same
    obtain ⟨rfl, rfl⟩ := SelectionError.unknownField.inj same
    have text := rootName' "x" (.declared "M" "T") (root ▸ deep)
    exact absurd text (by decide)
  exact ⟨path, (below path missing elsewhere).mpr deep, deep⟩

end TypeGraph

end IdlDirectives
