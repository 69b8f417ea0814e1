import IdlDirectives.Proofs.Check.Typing

namespace IdlDirectives.TypeGraph

/-- What is wrong first along a walk, if anything. -/
def IsVerdict (offends : List String → SelectionError → Prop) (walk : List (List String)) :
    Except SelectionError Unit → Prop
  | .ok _ => ∀ path ∈ walk, ∀ e, ¬ offends path e
  | .error e =>
    ∃ before path after, walk = before ++ path :: after ∧ offends path e ∧
      ∀ earlier ∈ before, ∀ e', ¬ offends earlier e'

section

variable {offends : List String → SelectionError → Prop} {walk more : List (List String)}
  {path : List String} {result : Except SelectionError Unit}

theorem IsVerdict.head {e : SelectionError} (offence : offends path e) :
    IsVerdict offends (path :: walk) (.error e) :=
  ⟨[], path, walk, rfl, offence, by simp⟩

theorem IsVerdict.cons (fine : ∀ e, ¬ offends path e) (h : IsVerdict offends walk result) :
    IsVerdict offends (path :: walk) result := by
  have skip {paths : List (List String)} (fines : ∀ other ∈ paths, ∀ e, ¬ offends other e) :
      ∀ other ∈ path :: paths, ∀ e, ¬ offends other e := by
    intro other member
    rcases List.mem_cons.mp member with rfl | member
    · exact fine
    · exact fines other member
  cases result with
  | ok _ => exact skip h
  | error e =>
    obtain ⟨before, first, after, same, offence, fines⟩ := h
    exact ⟨path :: before, first, after, by rw [same, List.cons_append], offence, skip fines⟩

theorem IsVerdict.append {next : Except SelectionError Unit} (h : IsVerdict offends walk result)
    (h' : IsVerdict offends more next) :
    IsVerdict offends (walk ++ more) (result.bind (fun _ => next)) := by
  cases result with
  | error e =>
    obtain ⟨before, first, after, same, offence, fines⟩ := h
    exact ⟨before, first, after ++ more, by simp [same], offence, fines⟩
  | ok _ =>
    have fine : ∀ other ∈ walk, ∀ e, ¬ offends other e := h
    clear h
    induction walk with
    | nil => exact h'
    | cons path walk ih =>
      exact .cons (fine path List.mem_cons_self)
        (ih (fun other member => fine other (List.mem_cons_of_mem _ member)))

theorem IsVerdict.eq_of_head {e : SelectionError} (single : ∀ e', offends path e' → e' = e)
    (offence : offends path e) (h : IsVerdict offends (path :: walk) result) : result = .error e := by
  cases result with
  | ok _ => exact absurd offence (h path List.mem_cons_self e)
  | error e' =>
    obtain ⟨before, first, after, same, offence', fines⟩ := h
    cases before with
    | nil =>
      obtain ⟨rfl, rfl⟩ := List.cons.inj same
      rw [single e' offence']
    | cons other before =>
      obtain ⟨rfl, -⟩ := List.cons.inj same
      exact absurd offence (fines path List.mem_cons_self e)

theorem IsVerdict.tail (fine : ∀ e, ¬ offends path e) (h : IsVerdict offends (path :: walk) result) :
    IsVerdict offends walk result := by
  cases result with
  | ok _ => exact fun other member => h other (List.mem_cons_of_mem _ member)
  | error e =>
    obtain ⟨before, first, after, same, offence, fines⟩ := h
    cases before with
    | nil =>
      obtain ⟨rfl, rfl⟩ := List.cons.inj same
      exact absurd offence (fine e)
    | cons other before =>
      obtain ⟨rfl, rest⟩ := List.cons.inj same
      exact ⟨before, first, after, rest, offence,
        fun earlier member => fines earlier (List.mem_cons_of_mem _ member)⟩

theorem IsVerdict.unique {result' : Except SelectionError Unit}
    (single : ∀ path ∈ walk, ∀ e e', offends path e → offends path e' → e = e')
    (h : IsVerdict offends walk result) (h' : IsVerdict offends walk result') : result = result' := by
  induction walk with
  | nil =>
    have fine {r : Except SelectionError Unit} (h : IsVerdict offends [] r) : r = .ok () := by
      cases r with
      | ok _ => rfl
      | error e => obtain ⟨before, _, _, same, _⟩ := h; simp at same
    rw [fine h, fine h']
  | cons path walk ih =>
    by_cases offence : ∃ e, offends path e
    · obtain ⟨e, offence⟩ := offence
      have here (e' : SelectionError) (offence' : offends path e') : e' = e :=
        single path List.mem_cons_self e' e offence' offence
      rw [h.eq_of_head here offence, h'.eq_of_head here offence]
    · have fine : ∀ e, ¬ offends path e := not_exists.mp offence
      exact ih (fun other member => single other (List.mem_cons_of_mem _ member)) (h.tail fine) (h'.tail fine)

end

variable {g : TypeGraph} {ofKeys : Bool} {base : TypeId} {s : Selection}

theorem checkBranches_verdict {resolved : Resolved} {id : TypeId} {path : List String}
    {node t : Branches} (there : s.branches.at? path = some node)
    (reached : g.follow? base path = some id) (resolves : g.resolve id = .ok resolved)
    (ordered : t.Ordered)
    (children : ∀ selector below, t.child? selector = some below → node.child? selector = some below) :
    IsVerdict (g.Offends ofKeys base s) (t.walk.map (path ++ ·))
      (g.checkBranches ofKeys ⟨id, resolved.type, path, node.selectors⟩ t) := by
  -- on the branches: the node stands where the place says, and its branches are among the node's own
  induction t generalizing id path node resolved with
  | none => simp [Branches.walk, checkBranches, IsVerdict]
  | branch selector below others inner outer =>
    have child : node.child? selector = some below := children selector below (by simp [Branches.child?])
    have offends {e : SelectionError} : g.Offends ofKeys base s (path ++ [selector]) e ↔ _ :=
      offends_snoc there reached child
    have walked : (Branches.branch selector below others).walk.map (path ++ ·) =
        (path ++ [selector]) ::
          (below.walk.map (path ++ [selector] ++ ·) ++ others.walk.map (path ++ ·)) := by
      simp [Branches.walk, Function.comp_def]
    rw [walked]
    simp only [checkBranches, Bind.bind, Except.bind]
    cases entered : g.enter ⟨id, resolved.type, path, node.selectors⟩ selector with
    | error e => exact .head (offends.mpr (.inl ((enter_eq_error resolves).mp entered)))
    | ok next =>
      have leads := (enter_eq_ok resolves).mp entered
      dsimp only
      cases visited : g.visit ofKeys next (path ++ [selector]) below with
      | error e => exact .head (offends.mpr (.inr ⟨next, leads, visit_eq_error.mp visited⟩))
      | ok place =>
        have fine : ∀ e, ¬ g.Offends ofKeys base s (path ++ [selector]) e := by
          intro e offence
          rcases offends.mp offence with fault | ⟨next', leads', fault⟩
          · rw [(step?_eq_none ⟨resolved, resolves⟩).mpr ⟨e, fault⟩] at leads
            cases leads
          · rw [leads] at leads'
            cases leads'
            rw [visit_eq_error.mpr fault] at visited
            cases visited
        obtain ⟨resolved', resolves', -, rfl⟩ := visit_eq_ok.mp visited
        have there' : s.branches.at? (path ++ [selector]) = some below := by
          simp [Branches.at?_append, there, Branches.at?, child]
        have reached' : g.follow? base (path ++ [selector]) = some next := by
          rw [follow?_snoc, reached]
          exact leads
        have later : ∀ name under, others.child? name = some under → node.child? name = some under := by
          intro name under found
          apply children
          have member : name ∈ others.selectors := Branches.child?_isSome.mp (by simp [found])
          have different : selector ≠ name := String.ne_of_lt (ordered.1 name member)
          simp [Branches.child?, different, found]
        exact .cons fine (.append (inner there' reached' resolves' ordered.2.1 (fun _ _ found => found))
          (outer there reached resolves ordered.2.2 later))

theorem check_verdict : IsVerdict (g.Offends ofKeys base s) s.walk (g.check ofKeys base s) := by
  unfold check
  simp only [Bind.bind, Except.bind]
  cases visited : g.visit ofKeys base [] s.branches with
  | error e => exact .head (offends_root.mpr (visit_eq_error.mp visited))
  | ok place =>
    have fine : ∀ e, ¬ g.Offends ofKeys base s [] e := by
      intro e offence
      rw [visit_eq_error.mpr (offends_root.mp offence)] at visited
      cases visited
    obtain ⟨resolved, resolves, -, rfl⟩ := visit_eq_ok.mp visited
    have below : IsVerdict (g.Offends ofKeys base s) (s.branches.walk.map ([] ++ ·))
        (g.checkBranches ofKeys ⟨base, resolved.type, [], s.branches.selectors⟩ s.branches) :=
      checkBranches_verdict rfl rfl resolves s.ordered (fun _ _ found => found)
    exact .cons fine (by simpa using below)

theorem SelectorFault.follow?_eq_none {id : TypeId} {path : List String} {node : Branches}
    {selector : String} {e : SelectionError} (fault : SelectorFault g id path node selector e)
    (reached : g.follow? base path = some id) : g.follow? base (path ++ [selector]) = none := by
  rw [follow?_snoc, reached]
  exact (step?_eq_none fault.resolves).mpr ⟨e, fault⟩

theorem Offends.unique {path : List String} {e e' : SelectionError}
    (h : g.Offends ofKeys base s path e) (h' : g.Offends ofKeys base s path e') : e = e' := by
  generalize same : path = path' at h'
  cases h with
  | node there reached fault =>
    cases h' with
    | node there' reached' fault' =>
      subst same
      rw [there] at there'
      rw [reached] at reached'
      cases there'
      cases reached'
      have visited := visit_eq_error.mpr fault
      rw [visit_eq_error.mpr fault'] at visited
      cases visited
      rfl
    | selector there' reached' fault' =>
      subst same
      rw [fault'.follow?_eq_none reached'] at reached
      cases reached
  | selector there reached fault =>
    cases h' with
    | node there' reached' fault' =>
      subst same
      rw [fault.follow?_eq_none reached] at reached'
      cases reached'
    | selector there' reached' fault' =>
      obtain ⟨rfl, last⟩ := List.append_inj' same rfl
      cases last
      rw [there] at there'
      rw [reached] at reached'
      cases there'
      cases reached'
      obtain ⟨resolved, resolves⟩ := fault.resolves
      have entered := (enter_eq_error resolves).mpr fault
      rw [(enter_eq_error resolves).mpr fault'] at entered
      cases entered
      rfl

theorem fits_iff : g.Fits ofKeys base s ↔ ∀ path ∈ s.walk, ∀ e, ¬ g.Offends ofKeys base s path e := by
  constructor
  · intro fits path member e offence
    obtain ⟨node, there⟩ := Option.isSome_iff_exists.mp (Selection.mem_walk.mp member)
    obtain ⟨id, resolved, reached, resolves, mapping⟩ := fits path node there
    cases offence with
    | node there' reached' fault =>
      rw [there] at there'
      rw [reached] at reached'
      cases there'
      cases reached'
      have visited : g.visit ofKeys id path node = .ok ⟨id, resolved.type, path, node.selectors⟩ :=
        visit_eq_ok.mpr ⟨resolved, resolves, mapping, rfl⟩
      rw [visit_eq_error.mpr fault] at visited
      cases visited
    | selector there' reached' fault =>
      rw [fault.follow?_eq_none reached'] at reached
      cases reached
  · intro fine path
    induction path using List.reverseRecOn with
    | nil =>
      intro node there
      cases visited : g.visit ofKeys base [] s.branches with
      | error e =>
        exact absurd (offends_root.mpr (visit_eq_error.mp visited))
          (fine [] (Selection.mem_walk.mpr s.contains_nil) e)
      | ok place =>
        obtain ⟨resolved, resolves, mapping, -⟩ := visit_eq_ok.mp visited
        cases there
        exact ⟨base, resolved, rfl, resolves, mapping⟩
    | append_singleton path selector ih =>
      intro node there
      have member : path ++ [selector] ∈ s.walk :=
        Selection.mem_walk.mpr (by rw [Selection.Contains, there]; rfl)
      rw [Branches.at?_append, Option.bind_eq_some_iff] at there
      obtain ⟨above, there, child⟩ := there
      have child : above.child? selector = some node := by simpa [Branches.at?] using child
      obtain ⟨id, resolved, reached, resolves, -⟩ := ih above there
      have offends {e : SelectionError} : g.Offends ofKeys base s (path ++ [selector]) e ↔ _ :=
        offends_snoc there reached child
      cases leads : g.step? id selector with
      | none =>
        have faulty : ∃ e, SelectorFault g id path above selector e :=
          (step?_eq_none ⟨resolved, resolves⟩).mp leads
        obtain ⟨e, fault⟩ := faulty
        exact absurd (offends.mpr (.inl fault)) (fine _ member e)
      | some next =>
        cases visited : g.visit ofKeys next (path ++ [selector]) node with
        | error e =>
          exact absurd (offends.mpr (.inr ⟨next, leads, visit_eq_error.mp visited⟩)) (fine _ member e)
        | ok place =>
          obtain ⟨resolved', resolves', mapping, -⟩ := visit_eq_ok.mp visited
          exact ⟨next, resolved', by rw [follow?_snoc, reached]; exact leads, resolves', mapping⟩

theorem check_eq_ok : g.check ofKeys base s = .ok () ↔ g.Fits ofKeys base s := by
  have verdict : IsVerdict (g.Offends ofKeys base s) s.walk (g.check ofKeys base s) := check_verdict
  rw [fits_iff]
  constructor
  · intro accepted
    rw [accepted] at verdict
    exact verdict
  · intro fine
    cases checked : g.check ofKeys base s with
    | ok _ => rfl
    | error e =>
      rw [checked] at verdict
      obtain ⟨before, path, after, same, offence, -⟩ := verdict
      exact absurd offence (fine path (by simp [same]) e)

/-- The walk is the lexicographic one through all nodes. A check succeeds exactly if the selection
fits, and fails exactly with the first offence along the walk. -/
theorem check_fits_or_first_offence (g : TypeGraph) (ofKeys : Bool) (base : TypeId) (s : Selection) :
    (g.check ofKeys base s = .ok () ↔ g.Fits ofKeys base s) ∧
      (∀ e, g.check ofKeys base s = .error e ↔
        ∃ before path after, s.walk = before ++ path :: after ∧ g.Offends ofKeys base s path e ∧
          ∀ earlier ∈ before, ∀ e', ¬ g.Offends ofKeys base s earlier e') ∧
      (∀ path, path ∈ s.walk ↔ s.Contains path) ∧ s.walk.Pairwise (· < ·) := by
  have single : ∀ path ∈ s.walk, ∀ e e', g.Offends ofKeys base s path e →
      g.Offends ofKeys base s path e' → e = e' := fun _ _ _ _ h h' => h.unique h'
  have verdict : IsVerdict (g.Offends ofKeys base s) s.walk (g.check ofKeys base s) := check_verdict
  refine ⟨check_eq_ok, ?_, fun _ => Selection.mem_walk, s.walk_sorted⟩
  · intro e
    constructor
    · intro refused
      rw [refused] at verdict
      exact verdict
    · intro first
      have refused : IsVerdict (g.Offends ofKeys base s) s.walk (.error e) := first
      exact verdict.unique single refused

end IdlDirectives.TypeGraph
