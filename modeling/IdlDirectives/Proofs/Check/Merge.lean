import IdlDirectives.Proofs.Check.Verdict
import IdlDirectives.Proofs.Selection.Terminals

namespace IdlDirectives.TypeGraph

variable {g : TypeGraph} {ofKeys : Bool} {base other : TypeId} {s t : Selection}

theorem fits_iff_contains :
    g.Fits ofKeys base s ↔
      ∀ path, s.Contains path → ∃ id resolved,
        g.follow? base path = some id ∧ g.resolve id = .ok resolved ∧
          (ofKeys = true → s.Terminal path → resolved.type.isMapping = true) := by
  constructor
  · intro fits path there
    obtain ⟨node, found⟩ := Option.isSome_iff_exists.mp there
    obtain ⟨id, resolved, reached, resolves, mapping⟩ := fits path node found
    refine ⟨id, resolved, reached, resolves, fun keys terminal => mapping keys ?_⟩
    rw [Selection.Terminal, found] at terminal
    exact Branches.selectors_eq_nil.mpr (Option.some.inj terminal)
  · intro fits path node found
    obtain ⟨id, resolved, reached, resolves, mapping⟩ := fits path (by rw [Selection.Contains, found]; rfl)
    refine ⟨id, resolved, reached, resolves, fun keys bare => mapping keys ?_⟩
    rw [Selection.Terminal, found, Branches.selectors_eq_nil.mp bare]

theorem Fits.merge (fits : g.Fits ofKeys base s) (fits' : g.Fits ofKeys base t) :
    g.Fits ofKeys base (s.merge t) := by
  rw [fits_iff_contains] at fits fits' ⊢
  intro path there
  rcases Selection.contains_merge.mp there with left | right
  · obtain ⟨id, resolved, reached, resolves, mapping⟩ := fits path left
    exact ⟨id, resolved, reached, resolves,
      fun keys terminal => mapping keys (terminal.of_merge_left left)⟩
  · obtain ⟨id, resolved, reached, resolves, mapping⟩ := fits' path right
    exact ⟨id, resolved, reached, resolves,
      fun keys terminal => mapping keys (terminal.of_merge_right right)⟩

/-- Without keys only the nodes count, so a selection fits with all that has its nodes. -/
theorem Fits.of_contains (fits : g.Fits false base t) (within : ∀ path, s.Contains path → t.Contains path) :
    g.Fits false base s := by
  rw [fits_iff_contains] at fits ⊢
  intro path there
  obtain ⟨id, resolved, reached, resolves, -⟩ := fits path (within path there)
  exact ⟨id, resolved, reached, resolves, nofun⟩

theorem fits_merge :
    g.Fits false base (s.merge t) ↔ g.Fits false base s ∧ g.Fits false base t := by
  constructor
  · intro fits
    exact ⟨fits.of_contains (fun _ left => Selection.contains_merge.mpr (.inl left)),
      fits.of_contains (fun _ right => Selection.contains_merge.mpr (.inr right))⟩
  · rintro ⟨fits, fits'⟩
    exact fits.merge fits'

theorem shape?_of_resolveFrom {trail : List TypeId} {id : TypeId} {resolved : Resolved}
    (resolves : g.resolveFrom trail id = .ok resolved) :
    g.shape? resolved.id = some (.base resolved.type) := by
  fun_induction g.resolveFrom trail id with
  | case1 => cases resolves
  | case2 trail id type found =>
    cases resolves
    exact found
  | case3 => cases resolves
  | case4 trail id definition found fresh ih => exact ih resolves

theorem resolve_resolved {id : TypeId} {resolved : Resolved} (resolves : g.resolve id = .ok resolved) :
    g.resolve resolved.id = .ok ⟨resolved.id, resolved.type, 0⟩ := by
  rw [resolve, resolveFrom_eq, shape?_of_resolveFrom resolves]
  rfl

section

variable {resolved : Resolved} (resolves : g.resolve base = .ok resolved)

include resolves

theorem step?_resolved : g.step? resolved.id = g.step? base := by
  funext selector
  simp only [step?, resolves, resolve_resolved resolves]

theorem fits_resolved : g.Fits ofKeys resolved.id s ↔ g.Fits ofKeys base s := by
  have deeper (selector : String) (path : List String) :
      g.follow? resolved.id (selector :: path) = g.follow? base (selector :: path) := by
    simp only [follow?, List.foldlM_cons, step?_resolved resolves]
  constructor
  · intro fits path node found
    obtain ⟨id, target, reached, resolves', mapping⟩ := fits path node found
    cases path with
    | nil =>
      obtain rfl := Option.some.inj reached
      rw [resolve_resolved resolves] at resolves'
      cases resolves'
      exact ⟨base, resolved, rfl, resolves, mapping⟩
    | cons selector path => exact ⟨id, target, deeper selector path ▸ reached, resolves', mapping⟩
  · intro fits path node found
    obtain ⟨id, target, reached, resolves', mapping⟩ := fits path node found
    cases path with
    | nil =>
      obtain rfl := Option.some.inj reached
      rw [resolves] at resolves'
      cases resolves'
      exact ⟨resolved.id, _, rfl, resolve_resolved resolves, mapping⟩
    | cons selector path => exact ⟨id, target, deeper selector path ▸ reached, resolves', mapping⟩

theorem check_resolved : g.check ofKeys resolved.id s = .ok () ↔ g.check ofKeys base s = .ok () := by
  rw [check_eq_ok, check_eq_ok, fits_resolved resolves]

end

end IdlDirectives.TypeGraph
