import IdlDirectives.Proofs.Rule.NameLists
import IdlDirectives.Proofs.Rule.Parameters
import IdlDirectives.Proofs.Rule.Rejections
import IdlDirectives.Proofs.Selection.Union

namespace IdlDirectives

open Expression

theorem Selection.foldl_merge_perm {trees trees' : List Selection} (same : trees.Perm trees')
    (s : Selection) : trees.foldl merge s = trees'.foldl merge s :=
  same.foldl_eq' (fun t _ u _ s => by rw [merge_assoc, merge_assoc, merge_comm t u]) s

theorem SearchPath.parse_eq_ok {param : String} {path : SearchPath} :
    parse param = .ok path ↔
      (unwrapKeys param).2 = path.ofKeys ∧ Expression.parse (unwrapKeys param).1 = .ok path.selection := by
  obtain ⟨selection, ofKeys⟩ := path
  simp only [parse]
  cases Expression.parse (unwrapKeys param).1 with
  | error cause => simp
  | ok tree => simp [and_comm]

def SearchPath.tree? (ofKeys : Bool) (param : String) : Option Selection :=
  if (unwrapKeys param).2 = ofKeys then (Expression.parse (unwrapKeys param).1).toOption else none

def SearchPath.trees (ofKeys : Bool) (params : List String) : List Selection :=
  params.filterMap (tree? ofKeys)

theorem SearchPath.trees_eq (ofKeys : Bool) (params : List String) :
    trees ofKeys params = ((ofParams params).filter (·.ofKeys = ofKeys)).map (·.selection) := by
  rw [ofParams, List.filter_filterMap, List.map_filterMap]
  refine List.filterMap_congr (fun param _ => ?_)
  simp only [tree?, parse]
  by_cases kind : (unwrapKeys param).2 = ofKeys
  · cases Expression.parse (unwrapKeys param).1 with
    | error cause => simp [Except.toOption]
    | ok tree => simp [Except.toOption, Option.filter, kind]
  · cases Expression.parse (unwrapKeys param).1 with
    | error cause => simp [Except.toOption, kind]
    | ok tree => simp [Except.toOption, Option.filter, kind]

theorem Searchable.part_foldl (paths : List SearchPath) (ofKeys : Bool) (s : Searchable) :
    (paths.foldl add s).part ofKeys =
      ((paths.filter (·.ofKeys = ofKeys)).map (·.selection)).foldl Selection.merge (s.part ofKeys) := by
  induction paths generalizing s with
  | nil => rfl
  | cons path rest ih =>
    rw [List.foldl_cons, ih, part_add]
    by_cases kind : path.ofKeys = ofKeys
    · simp [kind]
    · simp [kind]

namespace Rule

def pathParams (ds : List Directive) : List String :=
  ds.flatMap (fun d => d.searchPaths?.getD [])

/-- What is held against a path parameter. -/
inductive Judged (g : TypeGraph) (base : TypeId) (param : String) : List Rejection → Prop
  | malformed {cause : ExpressionError} (unread : Expression.parse (unwrapKeys param).1 = .error cause) :
      Judged g base param [.malformedPath param cause]
  | invalid {tree : Selection} {cause : SelectionError}
      (read : Expression.parse (unwrapKeys param).1 = .ok tree)
      (misfit : g.check (unwrapKeys param).2 base tree = .error cause) :
      Judged g base param [.invalidPath param cause]
  | valid {tree : Selection} (read : Expression.parse (unwrapKeys param).1 = .ok tree)
      (fit : g.check (unwrapKeys param).2 base tree = .ok ()) : Judged g base param []

variable {g : TypeGraph} {id : TypeId} {resolved : Resolved}

theorem judged_searchFault? (g : TypeGraph) (id : TypeId) (param : String) :
    Judged g id param (searchFault? g id param).toList := by
  simp only [searchFault?, SearchPath.parse]
  cases read : Expression.parse (unwrapKeys param).1 with
  | error cause => exact .malformed read
  | ok tree =>
    dsimp only
    cases checked : g.check (unwrapKeys param).2 id tree with
    | error cause => exact .invalid read checked
    | ok done => exact .valid read checked

theorem ofDirectives_eq (ds : List Directive) :
    SearchPath.ofDirectives ds = SearchPath.ofParams (pathParams ds) := by
  simp only [SearchPath.ofDirectives, SearchPath.ofParams, pathParams, List.filterMap_flatMap]

theorem searchPaths?_eq_some {d : Directive} {paths : List String} :
    d.searchPaths? = some paths ↔ d.flag = "searchable" ∧ d.params = searchContext :: paths := by
  unfold Directive.searchPaths?
  cases d.params with
  | nil => simp
  | cons context words =>
    by_cases known : context = searchContext
    · simp [known]
    · simp [known]

theorem searchPaths?_isSome {d : Directive} :
    d.searchPaths?.isSome = true ↔ d.flag = "searchable" ∧ d.params.head? = some "ws_subset" := by
  simp only [Option.isSome_iff_exists, searchPaths?_eq_some, exists_and_left, List.head?_eq_some_iff,
    searchContext]

theorem eq_of_stored (target : requireStruct g id = .ok resolved) {ds : List Directive} {found : Searchable}
    (stored : (applyAll (forTypedef g id) ∅ ds).1.searchable = some found) :
    found = (SearchPath.ofParams (pathParams ds)).foldl Searchable.add .nothing := by
  have accumulated := searchable_applyAll target ds ∅
  rw [stored, ofDirectives_eq] at accumulated
  exact accumulated

theorem part_stored (target : requireStruct g id = .ok resolved) {ds : List Directive} {found : Searchable}
    (stored : (applyAll (forTypedef g id) ∅ ds).1.searchable = some found) (ofKeys : Bool) :
    found.part ofKeys = (SearchPath.trees ofKeys (pathParams ds)).foldl Selection.merge .whole := by
  rw [eq_of_stored target stored, Searchable.part_foldl, Searchable.part_nothing, SearchPath.trees_eq]

theorem contains_stored (target : requireStruct g id = .ok resolved) {ds : List Directive}
    {found : Searchable} (stored : (applyAll (forTypedef g id) ∅ ds).1.searchable = some found)
    (ofKeys : Bool) (node : List String) :
    (found.part ofKeys).Contains node ↔
      node = [] ∨ ∃ param ∈ pathParams ds, (unwrapKeys param).2 = ofKeys ∧
        ∃ tree, Expression.parse (unwrapKeys param).1 = .ok tree ∧ tree.Contains node := by
  rw [eq_of_stored target stored, Searchable.contains_part_foldl, Searchable.part_nothing,
    Selection.contains_whole]
  refine or_congr_right ?_
  constructor
  · rintro ⟨path, listed, kind, there⟩
    obtain ⟨param, given, read⟩ := SearchPath.mem_ofParams.mp listed
    obtain ⟨same, parsed⟩ := SearchPath.parse_eq_ok.mp read
    exact ⟨param, given, same.trans kind, path.selection, parsed, there⟩
  · rintro ⟨param, given, kind, tree, parsed, there⟩
    have read : SearchPath.parse param = .ok ⟨tree, ofKeys⟩ := SearchPath.parse_eq_ok.mpr ⟨kind, parsed⟩
    exact ⟨_, SearchPath.mem_ofParams.mpr ⟨param, given, read⟩, rfl, there⟩

theorem searchable_particular (target : requireStruct g id = .ok resolved) {d : Directive}
    (own : d.flag = "searchable") (s : AnnotationSet) :
    (applyOne (forTypedef g id) d s).rejections.filter (¬ ·.isOfDirective) =
      (d.searchPaths?.getD []).filterMap (searchFault? g resolved.id) := by
  rw [applyOne_searchable g id own]
  rcases searchable_cases g id d.params s with ⟨reason, whole, refused, other⟩ | ⟨base, paths, found, given, taken⟩
  · have none : d.searchPaths? = none :=
      Option.eq_none_iff_forall_ne_some.mpr
        (fun paths given => other resolved paths target (searchPaths?_eq_some.mp given).2)
    simp [refused, none, Outcome.reject, whole]
  · rw [taken, searchPaths?_eq_some.mpr ⟨own, given⟩]
    obtain rfl := Except.ok.inj (target.symm.trans found)
    refine List.filter_eq_self.mpr (fun reason listed => ?_)
    obtain ⟨param, -, fault⟩ := List.mem_filterMap.mp listed
    simp [(searchFault?_isOfParameter fault).particular]

theorem particular_applyAll (target : requireStruct g id = .ok resolved) (ds : List Directive)
    (s : AnnotationSet) :
    (reasonsOf "searchable" (applyAll (forTypedef g id) s ds).2).filter (¬ ·.isOfDirective) =
      (pathParams ds).filterMap (searchFault? g resolved.id) := by
  induction ds generalizing s with
  | nil => rfl
  | cons d rest ih =>
    have first : pathParams (d :: rest) = d.searchPaths?.getD [] ++ pathParams rest := rfl
    rw [applyAll, first, List.filterMap_append]
    by_cases own : d.flag = "searchable"
    · rw [reasonsOf_own own, List.filter_append, ih, searchable_particular target own]
    · have none : d.searchPaths? = Option.none := by
        rw [← Option.not_isSome_iff_eq_none, searchPaths?_isSome]
        exact fun given => own given.1
      rw [reasonsOf_other own, ih, none]
      rfl

/-- On a typedef for a structure, what is stored is there as soon as one directive names the context, and
then it is the selections of all path parameters that can be read. Each parameter has at most one warning,
which depends on nothing but the parameter. -/
theorem search_paths_accounted {g : TypeGraph} {id base : TypeId} {fields : List Field} {depth : Nat}
    (struct : g.resolve id = .ok ⟨base, .struct fields, depth⟩) (ds : List Directive) :
    ((applyAll (forTypedef g id) ∅ ds).1.searchable.isSome ↔
        ∃ d ∈ ds, d.flag = "searchable" ∧ d.params.head? = some "ws_subset") ∧
      (∀ found, (applyAll (forTypedef g id) ∅ ds).1.searchable = some found →
        (∀ trees : List Selection, trees.Perm (SearchPath.trees false (pathParams ds)) →
            found.fields = trees.foldl Selection.merge .whole) ∧
          (∀ trees : List Selection, trees.Perm (SearchPath.trees true (pathParams ds)) →
            found.keys = trees.foldl Selection.merge .whole) ∧
          ∀ ofKeys node, (found.part ofKeys).Contains node ↔
            node = [] ∨ ∃ param ∈ pathParams ds, (unwrapKeys param).2 = ofKeys ∧
              ∃ tree, Expression.parse (unwrapKeys param).1 = .ok tree ∧ tree.Contains node) ∧
      ∀ s, ∃ verdicts, List.Forall₂ (Judged g base) (pathParams ds) verdicts ∧
        (reasonsOf "searchable" (applyAll (forTypedef g id) s ds).2).filter (¬ ·.isOfDirective) =
          verdicts.flatten := by
  have target : requireStruct g id = .ok ⟨base, .struct fields, depth⟩ :=
    requireStruct_eq_ok.mpr ⟨struct, rfl⟩
  refine ⟨?_, fun found stored => ⟨fun trees same => ?_, fun trees same => ?_, fun ofKeys node => ?_⟩,
    fun s => ?_⟩
  · have none : (∅ : AnnotationSet).searchable.isSome = false := rfl
    rw [searchable_applyAll_isSome target, none]
    simp only [Bool.false_eq_true, false_or, searchPaths?_isSome]
  · exact (part_stored target stored false).trans (Selection.foldl_merge_perm same.symm _)
  · exact (part_stored target stored true).trans (Selection.foldl_merge_perm same.symm _)
  · exact contains_stored target stored ofKeys node
  · refine ⟨(pathParams ds).map (fun param => (searchFault? g base param).toList), ?_, ?_⟩
    · rw [List.forall₂_map_right_iff, List.forall₂_same]
      exact fun param _ => judged_searchFault? g base param
    · rw [particular_applyAll target, List.filterMap_eq_flatMap_toList]
      rfl

theorem search_paths_accounted_document :
    let ds : List Directive :=
      [⟨"searchable", "ws_subset a.(b list.x"⟩, ⟨"searchable", "ws a"⟩,
        ⟨"searchable", "ws_subset keys_of(tags) a.b"⟩]
    let params := ["a.(b", "list.x", "keys_of(tags)", "a.b"]
    document.resolve ⟨7⟩ = .ok ⟨⟨6⟩, .struct [⟨"a", ⟨2⟩⟩, ⟨"list", ⟨4⟩⟩, ⟨"tags", ⟨5⟩⟩], 1⟩ ∧
      ∃ found, (applyAll (forTypedef document ⟨7⟩) ∅ ds).1.searchable = some found ∧
        found.fields = (Selection.whole.insert ["a", "b"]).merge (.insert .whole ["list", "x"]) ∧
        found.keys = .insert .whole ["tags"] ∧
        ∃ verdicts, List.Forall₂ (Judged document ⟨6⟩) params verdicts ∧
          verdicts.flatten =
            [.malformedPath "a.(b" .unmatchedOpen, .invalidPath "list.x" (.notListSelector ["list"] "x")] := by
  intro ds params
  have struct : document.resolve ⟨7⟩ =
      .ok ⟨⟨6⟩, .struct [⟨"a", ⟨2⟩⟩, ⟨"list", ⟨4⟩⟩, ⟨"tags", ⟨5⟩⟩], 1⟩ := by
    decide +kernel
  obtain ⟨present, merged, judged⟩ := search_paths_accounted struct ds
  have listed : pathParams ds = params := by decide +kernel
  rw [listed] at merged judged
  obtain ⟨found, stored⟩ := Option.isSome_iff_exists.mp
    (present.mpr ⟨⟨"searchable", "ws_subset a.(b list.x"⟩, by simp [ds], rfl, by decide +kernel⟩)
  obtain ⟨fields, keys, -⟩ := merged found stored
  have swapped : List.Perm [Selection.whole.insert ["a", "b"], .insert .whole ["list", "x"]]
      (SearchPath.trees false params) := by
    have read : SearchPath.trees false params =
        [.insert .whole ["list", "x"], .insert .whole ["a", "b"]] := by
      decide +kernel
    rw [read]
    exact .swap _ _ []
  have single : SearchPath.trees true params = [.insert .whole ["tags"]] := by decide +kernel
  obtain ⟨verdicts, each, held⟩ := judged ∅
  refine ⟨struct, found, stored, ?_, ?_, verdicts, each, held.symm.trans (by decide +kernel)⟩
  · rw [fields _ swapped]
    exact congrArg (Selection.merge · _) (Selection.whole_merge _)
  · rw [keys _ (.refl _), single]
    exact Selection.whole_merge _

end Rule

end IdlDirectives
