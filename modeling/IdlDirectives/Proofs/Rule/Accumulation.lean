import IdlDirectives.Proofs.Check.Merge
import IdlDirectives.Proofs.Rule.Interleaving

namespace IdlDirectives

namespace Directive

def searchPaths? (d : Directive) : Option (List String) :=
  match d.params with
  | [] => none
  | context :: paths =>
    if d.flag = "searchable" ∧ context = Rule.searchContext then some paths else none

end Directive

namespace SearchPath

def ofParams (params : List String) : List SearchPath :=
  params.filterMap (fun param => (parse param).toOption)

def ofDirectives (ds : List Directive) : List SearchPath :=
  ds.flatMap (fun d => ofParams (d.searchPaths?.getD []))

theorem mem_ofParams {path : SearchPath} {params : List String} :
    path ∈ ofParams params ↔ ∃ param ∈ params, parse param = .ok path := by
  simp only [ofParams, List.mem_filterMap]
  refine exists_congr (fun param => and_congr_right (fun _ => ?_))
  cases parse param <;> simp [Except.toOption]

end SearchPath

namespace Searchable

variable {g : TypeGraph} {id : TypeId} {s : Searchable} {path : SearchPath}

def part (s : Searchable) (ofKeys : Bool) : Selection :=
  if ofKeys then s.keys else s.fields

theorem part_nothing (ofKeys : Bool) : nothing.part ofKeys = .whole := by
  cases ofKeys <;> rfl

theorem part_add (s : Searchable) (path : SearchPath) (ofKeys : Bool) :
    (s.add path).part ofKeys =
      if path.ofKeys = ofKeys then (s.part ofKeys).merge path.selection else s.part ofKeys := by
  obtain ⟨selection, keys⟩ := path
  cases keys <;> cases ofKeys <;> rfl

theorem contains_part_foldl {paths : List SearchPath} {ofKeys : Bool} {node : List String} :
    ((paths.foldl add s).part ofKeys).Contains node ↔
      (s.part ofKeys).Contains node ∨
        ∃ path ∈ paths, path.ofKeys = ofKeys ∧ path.selection.Contains node := by
  induction paths generalizing s with
  | nil => simp
  | cons first rest ih =>
    rw [List.foldl_cons, ih, part_add]
    by_cases kind : first.ofKeys = ofKeys
    · simp [kind, Selection.contains_merge, or_assoc]
    · simp [kind]

structure Fits (s : Searchable) (g : TypeGraph) (id : TypeId) : Prop where
  fields : g.Fits false id s.fields
  keys : s.keys ≠ .whole → g.Fits true id s.keys

theorem Fits.add (fits : s.Fits g id) (fits' : g.Fits path.ofKeys id path.selection) :
    (s.add path).Fits g id := by
  obtain ⟨selection, keys⟩ := path
  cases keys with
  | false => exact ⟨fits.fields.merge fits', fits.keys⟩
  | true =>
    refine ⟨fits.fields, fun _ => ?_⟩
    -- no keys at all do not fit a structure, so the first selection of keys is a case of its own
    by_cases none : s.keys = .whole
    · have first : (s.add ⟨selection, true⟩).keys = selection := by
        rw [show (s.add ⟨selection, true⟩).keys = s.keys.merge selection from rfl, none,
          Selection.whole_merge]
      rw [first]
      exact fits'
    · exact (fits.keys none).merge fits'

theorem Fits.foldl {paths : List SearchPath} (fits : s.Fits g id)
    (each : ∀ path ∈ paths, g.Fits path.ofKeys id path.selection) :
    (paths.foldl Searchable.add s).Fits g id := by
  induction paths generalizing s with
  | nil => exact fits
  | cons first rest ih =>
    have here := fits.add (each first List.mem_cons_self)
    exact ih here (fun path member => each path (List.mem_cons_of_mem first member))

end Searchable

namespace TypeGraph

variable {g : TypeGraph} {ofKeys : Bool} {id : TypeId} {resolved : Resolved}

theorem fits_whole (resolves : g.resolve id = .ok resolved) : g.Fits false id .whole := by
  rw [fits_iff_contains]
  intro path there
  obtain rfl := Selection.contains_whole.mp there
  exact ⟨id, resolved, rfl, resolves, nofun⟩

end TypeGraph

namespace Rule

variable {g : TypeGraph} {id : TypeId} {resolved : Resolved}

theorem requireStruct_eq_ok :
    requireStruct g id = .ok resolved ↔ g.resolve id = .ok resolved ∧ resolved.type.isStruct = true := by
  unfold requireStruct
  cases g.resolve id with
  | error cause => simp
  | ok base =>
    simp only [Except.ok.injEq]
    split
    · next struct =>
      constructor
      · rintro ⟨⟩
        exact ⟨rfl, struct⟩
      · rintro ⟨rfl, -⟩
        rfl
    · next other =>
      constructor
      · nofun
      · rintro ⟨rfl, struct⟩
        exact absurd struct other

theorem isOfDirective_of_requireStruct {reason : Rejection} (failed : requireStruct g id = .error reason) :
    reason.isOfDirective = true := by
  unfold requireStruct at failed
  split at failed
  · cases failed
    rfl
  · split at failed
    · cases failed
    · cases failed
      rfl

theorem addPaths_eq (s : Searchable) (params : List String) :
    addPaths s params = (SearchPath.ofParams params).foldl Searchable.add s :=
  rfl

/-- A path is checked at the structure that the typedef stands for, and that is as good as at the typedef. -/
theorem searchFault?_eq_none (resolves : g.resolve id = .ok resolved) {param : String} :
    searchFault? g resolved.id param = none ↔
      ∃ path, SearchPath.parse param = .ok path ∧ g.check path.ofKeys id path.selection = .ok () := by
  unfold searchFault?
  cases SearchPath.parse param with
  | error cause => simp
  | ok path =>
    have here : g.check path.ofKeys resolved.id path.selection = .ok () ↔ _ :=
      TypeGraph.check_resolved resolves
    cases checked : g.check path.ofKeys resolved.id path.selection <;> simp [checked, ← here]

theorem searchable_apply (target : requireStruct g id = .ok resolved) (paths : List String)
    (s : AnnotationSet) :
    (searchable g id).apply (searchContext :: paths) s =
      ⟨{ s with searchable := some (addPaths (s.searchable.getD .nothing) paths) },
        paths.filterMap (searchFault? g resolved.id)⟩ := by
  simp only [searchable, target, ne_eq, not_true_eq_false, if_false]

theorem searchable_cases (g : TypeGraph) (id : TypeId) (params : List String) (s : AnnotationSet) :
    (∃ reason, reason.isOfDirective = true ∧ (searchable g id).apply params s = .reject s reason ∧
        ∀ resolved paths, requireStruct g id = .ok resolved → params ≠ searchContext :: paths) ∨
      ∃ resolved paths, requireStruct g id = .ok resolved ∧ params = searchContext :: paths ∧
        (searchable g id).apply params s =
          ⟨{ s with searchable := some (addPaths (s.searchable.getD .nothing) paths) },
            paths.filterMap (searchFault? g resolved.id)⟩ := by
  cases target : requireStruct g id with
  | error reason =>
    refine .inl ⟨reason, isOfDirective_of_requireStruct target, ?_, by simp⟩
    simp only [searchable, target]
  | ok resolved =>
    cases params with
    | nil =>
      refine .inl ⟨.missingParameter .searchContext, rfl, ?_, by simp⟩
      simp only [searchable, target]
    | cons context paths =>
      by_cases known : context = searchContext
      · subst known
        exact .inr ⟨resolved, paths, rfl, rfl, searchable_apply target paths s⟩
      · refine .inl ⟨.unsupportedContext context searchContext, rfl, ?_, ?_⟩
        · simp only [searchable, target, ne_eq, known, not_false_eq_true, if_true]
        · intro _ _ _ given
          exact known (List.cons.inj given).1

theorem searchable_accepts {params : List String} {s : AnnotationSet} :
    ((searchable g id).apply params s).rejections = [] ↔
      ∃ resolved paths, requireStruct g id = .ok resolved ∧ params = searchContext :: paths ∧
        ∀ param ∈ paths, searchFault? g resolved.id param = none := by
  rcases searchable_cases g id params s with ⟨reason, -, refused, other⟩ | ⟨resolved, paths, target, rfl, taken⟩
  · rw [refused]
    refine iff_of_false (List.cons_ne_nil reason []) ?_
    rintro ⟨resolved, paths, target, given, -⟩
    exact other resolved paths target given
  · simp [taken, target]

theorem applyOne_searchable (g : TypeGraph) (id : TypeId) {d : Directive} (own : d.flag = "searchable")
    (s : AnnotationSet) :
    applyOne (forTypedef g id) d s = (searchable g id).apply d.params s :=
  applyOne_forTypedef (by simp [forTypedef]) own s

theorem applyOne_other {d : Directive} (other : d.flag ≠ "searchable") (s : AnnotationSet) :
    (applyOne (forTypedef g id) d s).annotations.searchable = s.searchable :=
  read_applyOne_apart (forTypedef_local g id) .searchable other s

theorem searchable_applyOne (target : requireStruct g id = .ok resolved) (d : Directive)
    (s : AnnotationSet) :
    (applyOne (forTypedef g id) d s).annotations.searchable =
      match d.searchPaths? with
      | none => s.searchable
      | some params => some (addPaths (s.searchable.getD .nothing) params) := by
  by_cases own : d.flag = "searchable"
  · rw [applyOne_searchable g id own, searchable, Directive.searchPaths?]
    simp only [target, own, true_and]
    cases d.params with
    | nil => rfl
    | cons context paths => by_cases known : context = searchContext <;> simp [known, Outcome.reject]
  · rw [applyOne_other own, Directive.searchPaths?]
    cases d.params <;> simp [own]

theorem searchable_applyAll (target : requireStruct g id = .ok resolved) (ds : List Directive)
    (s : AnnotationSet) :
    (applyAll (forTypedef g id) s ds).1.searchable.getD .nothing =
      (SearchPath.ofDirectives ds).foldl Searchable.add (s.searchable.getD .nothing) := by
  induction ds generalizing s with
  | nil => rfl
  | cons d rest ih =>
    simp only [applyAll, ih, searchable_applyOne target, SearchPath.ofDirectives, List.flatMap_cons,
      List.foldl_append]
    cases d.searchPaths? <;> rfl

theorem searchable_applyAll_isSome (target : requireStruct g id = .ok resolved) {ds : List Directive}
    {s : AnnotationSet} :
    (applyAll (forTypedef g id) s ds).1.searchable.isSome ↔
      s.searchable.isSome ∨ ∃ d ∈ ds, d.searchPaths?.isSome := by
  induction ds generalizing s with
  | nil => simp [applyAll]
  | cons d rest ih =>
    rw [applyAll, ih, searchable_applyOne target]
    cases accepted : d.searchPaths? with
    | some params => simp [accepted]
    | none => simp [accepted]

theorem searchable_fits {d : Directive} {s : AnnotationSet}
    (fits : ∀ found, s.searchable = some found → found.Fits g id)
    (accepted : d.flag = "searchable" → (applyOne (forTypedef g id) d s).rejections = []) :
    ∀ found, (applyOne (forTypedef g id) d s).annotations.searchable = some found →
      found.Fits g id := by
  by_cases own : d.flag = "searchable"
  · rw [applyOne_searchable g id own] at accepted ⊢
    obtain ⟨resolved, paths, target, given, clear⟩ := searchable_accepts.mp (accepted own)
    have resolves := (requireStruct_eq_ok.mp target).1
    have before : (s.searchable.getD .nothing).Fits g id := by
      cases stored : s.searchable with
      | none => exact ⟨TypeGraph.fits_whole resolves, fun some => absurd rfl some⟩
      | some found => exact fits found stored
    rw [given, searchable_apply target, addPaths_eq]
    rintro found ⟨⟩
    refine before.foldl (fun path member => ?_)
    obtain ⟨param, listed, read⟩ := SearchPath.mem_ofParams.mp member
    obtain ⟨path', read', checked⟩ := (searchFault?_eq_none resolves).mp (clear param listed)
    obtain rfl : path = path' := by simpa [read] using read'
    exact TypeGraph.check_eq_ok.mp checked
  · rw [applyOne_other own]
    exact fits

theorem searchable_fits_applyAll {ds : List Directive} {s : AnnotationSet}
    (fits : ∀ found, s.searchable = some found → found.Fits g id)
    (accepted : ∀ f ∈ (applyAll (forTypedef g id) s ds).2, f.flag ≠ "searchable") :
    ∀ found, (applyAll (forTypedef g id) s ds).1.searchable = some found → found.Fits g id := by
  induction ds generalizing s with
  | nil => exact fits
  | cons d rest ih =>
    simp only [applyAll, List.mem_append, List.mem_map] at accepted
    have here : d.flag = "searchable" → (applyOne (forTypedef g id) d s).rejections = [] := by
      intro own
      refine List.eq_nil_iff_forall_not_mem.mpr (fun reason member => ?_)
      exact accepted ⟨d.flag, reason⟩ (.inl ⟨reason, member, rfl⟩) own
    exact ih (searchable_fits fits here) (fun f later => accepted f (.inr later))

/-- Merging keeps selections fitting, so what the directives of a typedef accumulate fits its type if
nothing was held against any of them. -/
theorem check_accumulated (g : TypeGraph) :
    (∀ base s t, g.check false base (s.merge t) = .ok () ↔
        g.check false base s = .ok () ∧ g.check false base t = .ok ()) ∧
      (∀ base s t, g.check true base s = .ok () → g.check true base t = .ok () →
        g.check true base (s.merge t) = .ok ()) ∧
      ∀ id ds, (∀ f ∈ (applyAll (forTypedef g id) ∅ ds).2, f.flag ≠ "searchable") →
        ∀ found, (applyAll (forTypedef g id) ∅ ds).1.searchable = some found →
          g.check false id found.fields = .ok () ∧
            (found.keys ≠ .whole → g.check true id found.keys = .ok ()) := by
  simp only [TypeGraph.check_eq_ok]
  refine ⟨fun base s t => TypeGraph.fits_merge, fun base s t => TypeGraph.Fits.merge, ?_⟩
  intro id ds accepted found stored
  have fits := searchable_fits_applyAll (s := ∅) nofun accepted found stored
  exact ⟨fits.fields, fits.keys⟩

def documentName : Typedef := ⟨"M", "Doc", "", ⟨6⟩⟩

def document : TypeGraph where
  nodes :=
    #[⟨.base (.scalar .string), none⟩, ⟨.base (.scalar .int), none⟩,
      ⟨.base (.struct [⟨"b", ⟨1⟩⟩]), none⟩, ⟨.base (.struct [⟨"x", ⟨1⟩⟩]), none⟩,
      ⟨.base (.list ⟨3⟩), none⟩, ⟨.base (.mapping ⟨0⟩ ⟨1⟩), none⟩,
      ⟨.base (.struct [⟨"a", ⟨2⟩⟩, ⟨"list", ⟨4⟩⟩, ⟨"tags", ⟨5⟩⟩]), none⟩,
      ⟨(.typedef documentName), none⟩]
  table := ∅

theorem check_accumulated_document :
    let ds : List Directive :=
      [⟨"searchable", "ws_subset a.b"⟩, ⟨"searchable", "ws_subset list.[*].x keys_of(tags)"⟩]
    ∃ found, (applyAll (forTypedef document ⟨7⟩) ∅ ds).1.searchable = some found ∧
      found.fields.paths = ["a.b", "list.[*].x"] ∧ found.keys.paths = ["tags"] ∧
      document.check false ⟨7⟩ found.fields = .ok () ∧ document.check true ⟨7⟩ found.keys = .ok () := by
  intro ds
  have accepted : (applyAll (forTypedef document ⟨7⟩) ∅ ds).2 = [] := by decide +kernel
  have stored : ((applyAll (forTypedef document ⟨7⟩) ∅ ds).1.searchable.map
      (fun s => (s.fields.paths, s.keys.paths))) = some (["a.b", "list.[*].x"], ["tags"]) := by
    decide +kernel
  obtain ⟨found, here, paths⟩ := Option.map_eq_some_iff.mp stored
  obtain ⟨fields, keys⟩ := Prod.mk.inj paths
  have fits := (check_accumulated document).2.2 ⟨7⟩ ds (by simp [accepted]) found here
  refine ⟨found, here, fields, keys, fits.1, fits.2 ?_⟩
  intro none
  rw [none] at keys
  cases keys

theorem searchable_given (target : requireStruct g id = .ok resolved) {ds : List Directive}
    {path : SearchPath} (given : path ∈ SearchPath.ofDirectives ds) :
    (applyAll (forTypedef g id) ∅ ds).1.searchable =
      some ((SearchPath.ofDirectives ds).foldl Searchable.add .nothing) := by
  obtain ⟨d, member, listed⟩ := List.mem_flatMap.mp given
  have accepted : d.searchPaths?.isSome := by
    cases none : d.searchPaths? with
    | some params => rfl
    | none => simp [none, SearchPath.ofParams] at listed
  obtain ⟨found, stored⟩ := Option.isSome_iff_exists.mp
    ((searchable_applyAll_isSome target (s := ∅)).mpr (.inr ⟨d, member, accepted⟩))
  have accumulated := searchable_applyAll target ds ∅
  rw [stored] at accumulated ⊢
  exact congrArg some accumulated

/-- A path that selects a node as a whole does so in the end exactly if no path of its kind goes below
the node, be it given before or after. -/
theorem selectsWhole_accumulated (target : requireStruct g id = .ok resolved) {ds : List Directive}
    {path : SearchPath} (given : path ∈ SearchPath.ofDirectives ds) {node : List String}
    (terminal : path.selection.Terminal node) :
    ∃ found, (applyAll (forTypedef g id) ∅ ds).1.searchable = some found ∧
      ((found.part path.ofKeys).SelectsWhole node ↔
        ∀ other ∈ SearchPath.ofDirectives ds, other.ofKeys = path.ofKeys →
          ∀ selector, ¬ other.selection.Contains (node ++ [selector])) := by
  refine ⟨_, searchable_given target given, ?_⟩
  have there : (((SearchPath.ofDirectives ds).foldl Searchable.add .nothing).part path.ofKeys).Contains
      node :=
    Searchable.contains_part_foldl.mpr (.inr ⟨path, given, rfl, terminal.contains⟩)
  rw [Selection.selectsWhole_iff_terminal there, Selection.terminal_iff]
  constructor
  · rintro ⟨-, bare⟩ other member kind selector below
    exact bare selector (Searchable.contains_part_foldl.mpr (.inr ⟨other, member, kind, below⟩))
  · intro clear
    refine ⟨there, fun selector below => ?_⟩
    rcases Searchable.contains_part_foldl.mp below with root | ⟨other, member, kind, below⟩
    · rw [Searchable.part_nothing, Selection.contains_whole] at root
      exact List.append_ne_nil_of_right_ne_nil node (by simp) root
    · exact clear other member kind selector below

theorem selectsWhole_accumulated_lost :
    let ds : List Directive := [⟨"searchable", "ws_subset a"⟩, ⟨"searchable", "ws_subset a.b"⟩]
    (applyAll (forTypedef document ⟨7⟩) ∅ ds).2 = [] ∧
      ∃ path ∈ SearchPath.ofDirectives ds, path.ofKeys = false ∧ path.selection.Terminal ["a"] ∧
        ∃ found, (applyAll (forTypedef document ⟨7⟩) ∅ ds).1.searchable = some found ∧
          ¬ found.fields.SelectsWhole ["a"] := by
  intro ds
  let path : SearchPath := ⟨.insert .whole ["a"], false⟩
  let longer : SearchPath := ⟨.insert .whole ["a", "b"], false⟩
  have paths : SearchPath.ofDirectives ds = [path, longer] := by decide +kernel
  have target : requireStruct document ⟨7⟩ =
      .ok ⟨⟨6⟩, .struct [⟨"a", ⟨2⟩⟩, ⟨"list", ⟨4⟩⟩, ⟨"tags", ⟨5⟩⟩], 1⟩ := by decide +kernel
  have terminal : path.selection.Terminal ["a"] := by decide +kernel
  have given : path ∈ SearchPath.ofDirectives ds := by simp [paths]
  obtain ⟨found, stored, selects⟩ := selectsWhole_accumulated target given terminal
  refine ⟨by decide +kernel, path, given, rfl, terminal, found, stored, ?_⟩
  intro whole
  exact selects.mp whole longer (by simp [paths]) rfl "b" (by decide +kernel)

end Rule

end IdlDirectives
