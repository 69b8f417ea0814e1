import IdlDirectives.Selection.Check
import IdlDirectives.Proofs.Selection.Walk
import Mathlib.Data.List.Induction

namespace IdlDirectives

def BaseType.isEntered : BaseType → Bool
  | .struct _ | .list _ | .mapping _ _ => true
  | .scalar _ | .tuple _ | .unspecifiedObject => false

namespace TypeGraph

def step? (g : TypeGraph) (id : TypeId) (selector : String) : Option TypeId :=
  match g.resolve id with
  | .error _ => none
  | .ok resolved =>
    match resolved.type with
    | .struct fields => (fields.find? (·.name = selector)).map (·.type)
    | .list element => if selector = "[*]" then some element else none
    | .mapping _ value => if selector = "*" then some value else none
    | .scalar _ | .tuple _ | .unspecifiedObject => none

def follow? (g : TypeGraph) (base : TypeId) (path : List String) : Option TypeId :=
  path.foldlM g.step? base

def Fits (g : TypeGraph) (ofKeys : Bool) (base : TypeId) (s : Selection) : Prop :=
  ∀ path node, s.branches.at? path = some node →
    ∃ id resolved, g.follow? base path = some id ∧ g.resolve id = .ok resolved ∧
      (ofKeys = true → node.selectors = [] → resolved.type.isMapping = true)

inductive NodeFault (g : TypeGraph) (ofKeys : Bool) (id : TypeId) (path : List String)
    (node : Branches) : SelectionError → Prop where
  | unresolved {cause : ResolveError} (unresolved : g.resolve id = .error cause) :
    NodeFault g ofKeys id path node (.unresolved cause)
  | keysOfNonMapping {resolved : Resolved} (resolves : g.resolve id = .ok resolved)
    (keys : ofKeys = true) (terminal : node.selectors = []) (other : resolved.type.isMapping = false) :
    NodeFault g ofKeys id path node (.keysOfNonMapping path resolved.type)

inductive SelectorFault (g : TypeGraph) (id : TypeId) (path : List String) (node : Branches)
    (selector : String) : SelectionError → Prop where
  | unknownField {resolved : Resolved} {fields : List Field} (resolves : g.resolve id = .ok resolved)
    (struct : resolved.type = .struct fields) (absent : ∀ field ∈ fields, field.name ≠ selector) :
    SelectorFault g id path node selector (.unknownField selector (g.structureName id path))
  | notListSelector {resolved : Resolved} {element : TypeId} (resolves : g.resolve id = .ok resolved)
    (list : resolved.type = .list element) (other : selector ≠ "[*]") :
    SelectorFault g id path node selector (.notListSelector path selector)
  | notMappingSelector {resolved : Resolved} {key value : TypeId}
    (resolves : g.resolve id = .ok resolved) (mapping : resolved.type = .mapping key value)
    (other : selector ≠ "*") :
    SelectorFault g id path node selector (.notMappingSelector path selector)
  | unsupported {resolved : Resolved} (resolves : g.resolve id = .ok resolved)
    (closed : resolved.type.isEntered = false) :
    SelectorFault g id path node selector (.unsupported path node.selectors resolved.type)

/-- The node at a path offends, or the selector that leads to it from the node above. -/
inductive Offends (g : TypeGraph) (ofKeys : Bool) (base : TypeId) (s : Selection) :
    List String → SelectionError → Prop where
  | node {path : List String} {node : Branches} {id : TypeId} {e : SelectionError}
    (there : s.branches.at? path = some node) (reached : g.follow? base path = some id)
    (fault : NodeFault g ofKeys id path node e) : Offends g ofKeys base s path e
  | selector {path : List String} {node : Branches} {id : TypeId} {selector : String}
    {e : SelectionError} (there : s.branches.at? path = some node)
    (reached : g.follow? base path = some id) (fault : SelectorFault g id path node selector e) :
    Offends g ofKeys base s (path ++ [selector]) e

theorem follow?_snoc {g : TypeGraph} {base : TypeId} {path : List String} {selector : String} :
    g.follow? base (path ++ [selector]) = (g.follow? base path).bind (g.step? · selector) := by
  simp [follow?, List.foldlM_append, List.foldlM_cons, List.foldlM_nil]

variable {g : TypeGraph} {ofKeys : Bool} {id base : TypeId} {s : Selection} {path : List String}
  {node : Branches} {selector : String}

theorem visit_eq_error {e : SelectionError} :
    g.visit ofKeys id path node = .error e ↔ NodeFault g ofKeys id path node e := by
  unfold visit
  constructor
  · intro h
    split at h
    · next unresolved => cases h; exact .unresolved unresolved
    · next resolves =>
      split at h
      · next misfit =>
        simp only [Bool.and_eq_true, List.isEmpty_iff, Bool.not_eq_true'] at misfit
        cases h
        exact .keysOfNonMapping resolves misfit.1.1 misfit.1.2 misfit.2
      · cases h
  · intro fault
    cases fault with
    | unresolved unresolved => rw [unresolved]
    | keysOfNonMapping resolves keys terminal other => simp [resolves, keys, terminal, other]

theorem visit_eq_ok {place : Place} :
    g.visit ofKeys id path node = .ok place ↔
      ∃ resolved, g.resolve id = .ok resolved ∧
        (ofKeys = true → node.selectors = [] → resolved.type.isMapping = true) ∧
        place = ⟨id, resolved.type, path, node.selectors⟩ := by
  unfold visit
  cases resolves : g.resolve id with
  | error cause => simp
  | ok resolved =>
    have fits : (ofKeys && node.selectors.isEmpty && !resolved.type.isMapping) = false ↔
        (ofKeys = true → node.selectors = [] → resolved.type.isMapping = true) := by
      cases ofKeys <;> cases resolved.type.isMapping <;> simp
    simp only [Except.ok.injEq, exists_eq_left']
    split
    · next misfit =>
      refine ⟨fun h => (by cases h), ?_⟩
      intro fit
      rw [fits.mpr fit.1] at misfit
      cases misfit
    · next fit =>
      rw [Except.ok.injEq, eq_comm]
      exact ⟨fun same => ⟨fits.mp (by simpa using fit), same⟩, fun h => h.2⟩

section

variable {resolved : Resolved}

theorem enter_eq_error (resolves : g.resolve id = .ok resolved) {e : SelectionError} :
    g.enter ⟨id, resolved.type, path, node.selectors⟩ selector = .error e ↔
      SelectorFault g id path node selector e := by
  constructor
  · intro h
    unfold enter at h
    cases shape : resolved.type with
    | struct fields =>
      simp only [shape, BaseType.field?] at h
      split at h
      · cases h
      · next absent =>
        cases h
        exact .unknownField resolves shape (by simpa using absent)
    | list element =>
      simp only [shape] at h
      split at h
      · cases h
      · next other => cases h; exact .notListSelector resolves shape other
    | mapping key value =>
      simp only [shape] at h
      split at h
      · cases h
      · next other => cases h; exact .notMappingSelector resolves shape other
    | scalar kind =>
      simp only [shape] at h
      cases h
      exact shape ▸ .unsupported resolves (by rw [shape]; rfl)
    | tuple elements =>
      simp only [shape] at h
      cases h
      exact shape ▸ .unsupported resolves (by rw [shape]; rfl)
    | unspecifiedObject =>
      simp only [shape] at h
      cases h
      exact shape ▸ .unsupported resolves (by rw [shape]; rfl)
  · intro fault
    cases fault with
    | @unknownField _ fields resolves' struct absent =>
      rw [resolves] at resolves'
      cases resolves'
      have missing : fields.find? (·.name = selector) = none := by simpa using absent
      simp [enter, struct, BaseType.field?, missing]
    | notListSelector resolves' list other =>
      rw [resolves] at resolves'
      cases resolves'
      simp [enter, list, Selector.elements, other]
    | notMappingSelector resolves' mapping other =>
      rw [resolves] at resolves'
      cases resolves'
      simp [enter, mapping, Selector.values, other]
    | unsupported resolves' closed =>
      rw [resolves] at resolves'
      cases resolves'
      cases shape : resolved.type <;> simp_all [enter, BaseType.isEntered]

theorem enter_eq_ok (resolves : g.resolve id = .ok resolved) {next : TypeId} :
    g.enter ⟨id, resolved.type, path, node.selectors⟩ selector = .ok next ↔
      g.step? id selector = some next := by
  unfold enter step?
  cases shape : resolved.type with
  | struct fields =>
    simp only [resolves, shape, BaseType.field?]
    cases fields.find? (·.name = selector) <;> simp
  | list element =>
    simp only [resolves, shape, Selector.elements]
    by_cases same : selector = "[*]" <;> simp [same]
  | mapping key value =>
    simp only [resolves, shape, Selector.values]
    by_cases same : selector = "*" <;> simp [same]
  | scalar kind => simp [resolves, shape]
  | tuple elements => simp [resolves, shape]
  | unspecifiedObject => simp [resolves, shape]

end

theorem SelectorFault.resolves {e : SelectionError} (fault : SelectorFault g id path node selector e) :
    ∃ resolved, g.resolve id = .ok resolved := by
  cases fault with
  | unknownField resolves => exact ⟨_, resolves⟩
  | notListSelector resolves => exact ⟨_, resolves⟩
  | notMappingSelector resolves => exact ⟨_, resolves⟩
  | unsupported resolves => exact ⟨_, resolves⟩

theorem step?_eq_none (resolves : ∃ resolved, g.resolve id = .ok resolved) :
    g.step? id selector = none ↔ ∃ e, SelectorFault g id path node selector e := by
  obtain ⟨resolved, resolves⟩ := resolves
  constructor
  · intro nowhere
    cases entered : g.enter ⟨id, resolved.type, path, node.selectors⟩ selector with
    | error e => exact ⟨e, (enter_eq_error resolves).mp entered⟩
    | ok next =>
      rw [enter_eq_ok resolves, nowhere] at entered
      cases entered
  · intro fault
    obtain ⟨e, fault⟩ := fault
    cases leads : g.step? id selector with
    | none => rfl
    | some next =>
      have entered : g.enter ⟨id, resolved.type, path, node.selectors⟩ selector = .ok next :=
        (enter_eq_ok resolves).mpr leads
      rw [(enter_eq_error resolves).mpr fault] at entered
      cases entered

theorem offends_root {e : SelectionError} :
    g.Offends ofKeys base s [] e ↔ NodeFault g ofKeys base [] s.branches e := by
  constructor
  · intro offence
    generalize root : [] = path at offence
    cases offence with
    | node there reached fault =>
      subst root
      cases there
      cases reached
      exact fault
    | selector => simp at root
  · intro fault
    exact .node rfl rfl fault

theorem offends_snoc {above : Branches} (there : s.branches.at? path = some above)
    (reached : g.follow? base path = some id) (child : above.child? selector = some node)
    {e : SelectionError} :
    g.Offends ofKeys base s (path ++ [selector]) e ↔
      SelectorFault g id path above selector e ∨
        ∃ next, g.step? id selector = some next ∧
          NodeFault g ofKeys next (path ++ [selector]) node e := by
  have below : s.branches.at? (path ++ [selector]) = some node := by
    simp [Branches.at?_append, there, Branches.at?, child]
  constructor
  · intro offence
    generalize longer : path ++ [selector] = whole at offence
    cases offence with
    | node there' reached' fault =>
      subst longer
      rw [below] at there'
      cases there'
      rw [follow?_snoc, reached] at reached'
      exact .inr ⟨_, reached', fault⟩
    | selector there' reached' fault =>
      obtain ⟨rfl, same⟩ := List.append_inj' longer rfl
      cases same
      rw [there] at there'
      cases there'
      rw [reached] at reached'
      cases reached'
      exact .inl fault
  · intro fault
    rcases fault with fault | ⟨next, leads, fault⟩
    · exact .selector there reached fault
    · exact .node below (by rw [follow?_snoc, reached]; exact leads) fault

end TypeGraph

end IdlDirectives
