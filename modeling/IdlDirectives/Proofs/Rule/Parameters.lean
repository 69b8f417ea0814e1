import IdlDirectives.Proofs.Expression.Commas
import IdlDirectives.Proofs.Expression.Wrapper
import IdlDirectives.Proofs.Rule.Accumulation

namespace IdlDirectives

open Expression

namespace SearchPath

def written (ofKeys : Bool) (expression : String) : String :=
  if ofKeys then "keys_of(" ++ expression ++ ")" else expression

theorem parse_written {expression : String} {s : Selection}
    (parsed : Expression.parse expression = .ok s) (ofKeys : Bool) :
    parse (written ofKeys expression) = .ok ⟨s, ofKeys⟩ := by
  cases ofKeys with
  | false =>
    have plain := unwrapKeys_plain (not_isWrapped_of_readable ⟨s, parsed⟩)
    simp only [written, parse, plain, parsed, Bool.false_eq_true, if_false]
  | true => simp only [written, parse, unwrapKeys_wrapped, parsed, if_true]

end SearchPath

namespace Searchable

theorem ext_of_contains {s t : Searchable}
    (same : ∀ ofKeys node, (s.part ofKeys).Contains node ↔ (t.part ofKeys).Contains node) : s = t := by
  obtain ⟨fields, keys⟩ := s
  obtain ⟨fields', keys'⟩ := t
  obtain rfl : fields = fields' := Selection.ext_of_contains (same false)
  obtain rfl : keys = keys' := Selection.ext_of_contains (same true)
  rfl

end Searchable

namespace Rule

variable {g : TypeGraph} {id : TypeId}

def groupParams (ofKeys : Bool) (groups : List (List String)) : List String :=
  groups.map (fun group => SearchPath.written ofKeys (",".intercalate group))

theorem contains_addPaths_groups {groups : List (List String)} {ofKeys : Bool}
    (readable : ∀ part ∈ groups.flatten, Readable part) (s : Searchable) (kind : Bool)
    (node : List String) :
    ((addPaths s (groupParams ofKeys groups)).part kind).Contains node ↔
      (s.part kind).Contains node ∨
        (kind = ofKeys ∧ ∃ part ∈ groups.flatten, Selects part node) := by
  have read : ∀ group ∈ groups, ∃ t, Expression.parse (",".intercalate group) = .ok t ∧
      ∀ path, t.Contains path ↔ path = [] ∨ ∃ part ∈ group, Selects part path := by
    intro group member
    exact parse_commas (fun part own => readable part (List.mem_flatten.mpr ⟨group, member, own⟩))
  rw [addPaths_eq, Searchable.contains_part_foldl]
  constructor
  · rintro (there | ⟨path, listed, rfl, chosen⟩)
    · exact .inl there
    · obtain ⟨param, given, parsed⟩ := SearchPath.mem_ofParams.mp listed
      obtain ⟨group, member, rfl⟩ := List.mem_map.mp given
      obtain ⟨t, parsed', contains⟩ := read group member
      rw [SearchPath.parse_written parsed'] at parsed
      obtain rfl := Except.ok.inj parsed
      rcases (contains node).mp chosen with rfl | ⟨part, own, selects⟩
      · exact .inl (Selection.contains_nil _)
      · exact .inr ⟨rfl, part, List.mem_flatten.mpr ⟨group, member, own⟩, selects⟩
  · rintro (there | ⟨rfl, part, own, selects⟩)
    · exact .inl there
    · obtain ⟨group, member, own⟩ := List.mem_flatten.mp own
      obtain ⟨t, parsed, contains⟩ := read group member
      refine .inr ⟨⟨t, kind⟩, ?_, rfl, (contains node).mpr (.inr ⟨part, own, selects⟩)⟩
      exact SearchPath.mem_ofParams.mpr
        ⟨_, List.mem_map_of_mem member, SearchPath.parse_written parsed kind⟩

theorem addPaths_groups_congr {groups groups' : List (List String)} (ofKeys : Bool)
    (readable : ∀ part ∈ groups.flatten, Readable part)
    (same : ∀ part, part ∈ groups.flatten ↔ part ∈ groups'.flatten) (s : Searchable) :
    addPaths s (groupParams ofKeys groups) = addPaths s (groupParams ofKeys groups') := by
  apply Searchable.ext_of_contains
  intro kind node
  rw [contains_addPaths_groups readable,
    contains_addPaths_groups (fun part member => readable part ((same part).mpr member))]
  simp only [same]

theorem annotations_searchable (g : TypeGraph) (id : TypeId) (params : List String) (s : AnnotationSet) :
    ((searchable g id).apply (searchContext :: params) s).annotations =
      if (requireStruct g id).isOk then
        { s with searchable := some (addPaths (s.searchable.getD .nothing) params) }
      else s := by
  cases target : requireStruct g id with
  | error reason => simp [searchable, target, Outcome.reject, Except.isOk, Except.toBool]
  | ok resolved => simp [searchable_apply target, Except.isOk, Except.toBool]

theorem searchable_params_append (g : TypeGraph) (id : TypeId) (params params' : List String)
    (s : AnnotationSet) :
    ((searchable g id).apply (searchContext :: params')
        ((searchable g id).apply (searchContext :: params) s).annotations).annotations =
      ((searchable g id).apply (searchContext :: (params ++ params')) s).annotations := by
  simp only [annotations_searchable]
  split
  · simp [addPaths]
  · rfl

/-- Merging is taking the union of the nodes, and so is writing a comma between expressions. What they
select depends on nothing but which expressions there are, however they are shared out between commas,
parameters and directives. -/
theorem merge_union :
    (∀ (s t : Selection) path, (s.merge t).Contains path ↔ s.Contains path ∨ t.Contains path) ∧
      (∀ s t : Selection, s.merge t = t.merge s) ∧
      (∀ s t u : Selection, (s.merge t).merge u = s.merge (t.merge u)) ∧
      (∀ s : Selection, s.merge s = s) ∧
      (∀ s : Selection, s.merge .whole = s ∧ Selection.whole.merge s = s) ∧
      (∀ first second s t, Expression.parse first = .ok s → Expression.parse second = .ok t →
        Expression.parse (first ++ "," ++ second) = .ok (s.merge t)) ∧
      (∀ parts parts' : List String, (∀ part ∈ parts, Readable part) →
        (∀ part, part ∈ parts ↔ part ∈ parts') →
        Expression.parse (",".intercalate parts) = Expression.parse (",".intercalate parts')) ∧
      (∀ g id ofKeys (groups groups' : List (List String)), (∀ part ∈ groups.flatten, Readable part) →
        (∀ part, part ∈ groups.flatten ↔ part ∈ groups'.flatten) →
        ∀ s, ((searchable g id).apply (searchContext :: groupParams ofKeys groups) s).annotations =
          ((searchable g id).apply (searchContext :: groupParams ofKeys groups') s).annotations) ∧
      ∀ g id params params' s,
        ((searchable g id).apply (searchContext :: params')
            ((searchable g id).apply (searchContext :: params) s).annotations).annotations =
          ((searchable g id).apply (searchContext :: (params ++ params')) s).annotations := by
  refine ⟨fun _ _ _ => Selection.contains_merge, Selection.merge_comm, Selection.merge_assoc,
    Selection.merge_self, fun s => ⟨s.merge_whole, s.whole_merge⟩, fun _ _ _ _ => parse_comma,
    fun _ _ => parse_commas_congr, ?_, searchable_params_append⟩
  intro g id ofKeys groups groups' readable same s
  rw [annotations_searchable, annotations_searchable, addPaths_groups_congr ofKeys readable same]

theorem merge_union_document :
    Expression.parse "a.b,list.([*].x)" =
        .ok ((Selection.whole.insert ["a", "b"]).merge (.insert .whole ["list", "[*]", "x"])) ∧
      Expression.parse "a.b,list.([*].x)" = Expression.parse "list.([*].x),a.b,a.b" ∧
      ((searchable document ⟨7⟩).apply ["ws_subset", "a.b,list.([*].x)"] ∅).annotations =
        ((searchable document ⟨7⟩).apply ["ws_subset", "list.([*].x)", "a.b"] ∅).annotations := by
  have first : Expression.parse "a.b" = .ok (.insert .whole ["a", "b"]) := by decide +kernel
  have second : Expression.parse "list.([*].x)" = .ok (.insert .whole ["list", "[*]", "x"]) := by
    decide +kernel
  have readable : ∀ part ∈ ["a.b", "list.([*].x)"], Readable part := by
    simp only [List.mem_cons, List.not_mem_nil, or_false]
    rintro part (rfl | rfl)
    · exact ⟨_, first⟩
    · exact ⟨_, second⟩
  obtain ⟨-, -, -, -, -, comma, commas, params, -⟩ := merge_union
  refine ⟨comma _ _ _ _ first second, ?_, ?_⟩
  · refine commas ["a.b", "list.([*].x)"] ["list.([*].x)", "a.b", "a.b"] readable (fun part => ?_)
    simp only [List.mem_cons, List.not_mem_nil, or_false]
    tauto
  · refine params document ⟨7⟩ false [["a.b", "list.([*].x)"]] [["list.([*].x)"], ["a.b"]] readable
      (fun part => ?_) ∅
    simp [or_comm]

end Rule

def ExpressionError.PointsInto (error : ExpressionError) (text : String) : Prop :=
  ∃ position c, error.At position c ∧ text.toList[position]? = some c

theorem ExpressionError.At.pointsInto_iff {error : ExpressionError} {position : Nat} {c : Char}
    (told : error.At position c) {text : String} :
    error.PointsInto text ↔ ∃ other, error.At position other ∧ text.toList[position]? = some other := by
  constructor
  · rintro ⟨position', other, told', shown⟩
    obtain rfl := told.position_eq told'
    exact ⟨other, told', shown⟩
  · rintro ⟨other, told', shown⟩
    exact ⟨position, other, told', shown⟩

namespace Rule

variable {g : TypeGraph} {id : TypeId}

theorem searchFault?_eq_malformedPath {param path : String} {cause : ExpressionError} :
    searchFault? g id param = some (.malformedPath path cause) ↔
      param = path ∧ Expression.parse (unwrapKeys param).1 = .error cause := by
  simp only [searchFault?, SearchPath.parse]
  cases Expression.parse (unwrapKeys param).1 with
  | error cause' => simp
  | ok tree =>
    dsimp only
    split <;> simp

theorem parse_of_malformedPath {params : List String} {s : AnnotationSet} {path : String}
    {cause : ExpressionError}
    (warned : .malformedPath path cause ∈ ((searchable g id).apply params s).rejections) :
    Expression.parse (unwrapKeys path).1 = .error cause := by
  rcases searchable_cases g id params s with ⟨reason, whole, refused, -⟩ | ⟨resolved, paths, -, -, taken⟩
  · rw [refused] at warned
    obtain rfl := List.mem_singleton.mp warned
    cases whole
  · rw [taken] at warned
    obtain ⟨param, -, fault⟩ := List.mem_filterMap.mp warned
    obtain ⟨rfl, failed⟩ := searchFault?_eq_malformedPath.mp fault
    exact failed

/-- Before the expression the wrapper shows a name and a parenthesis, and then what stands in the
expression eight places earlier. -/
theorem pointsInto_wrapped {inner : String} {cause : ExpressionError} {position : Nat} {c : Char}
    (told : cause.At position c) (there : inner.toList[position]? = some c) :
    cause.PointsInto ("keys_of(" ++ inner ++ ")") ↔
      cause = .illegalOpen 7 ∨ (cause = .illegalName position ∧ position < 7) ∨
        ∃ earlier other, position = earlier + 8 ∧ cause.At position other ∧
          inner.toList[earlier]? = some other := by
  have inside : position < inner.toList.length := (List.getElem?_eq_some_iff.mp there).1
  have apart (other : position ≠ 7) : cause ≠ .illegalOpen 7 := by
    rintro rfl
    exact other (told.position_eq (.opening 7))
  rw [told.pointsInto_iff]
  rcases Nat.lt_trichotomy position 7 with before | rfl | after
  · have shown : "keys_of".toList[position]? = some "keys_of".toList[position] :=
      List.getElem?_eq_getElem before
    have plain : ∀ ch ∈ "keys_of".toList, ch ∉ delimiters := by simp [delimiters]
    have named := plain _ (List.mem_of_getElem? shown)
    rw [getElem?_wrapper inner before, shown]
    constructor
    · rintro ⟨other, told', ⟨⟩⟩
      exact .inr (.inl ⟨told'.eq_illegalName named, before⟩)
    · rintro (same | ⟨rfl, -⟩ | ⟨earlier, other, same, -⟩)
      · exact absurd same (apart (by omega))
      · exact ⟨_, .plain position named, rfl⟩
      · omega
  · have shown : ("keys_of(" ++ inner ++ ")").toList[7]? = some '(' := by
      rw [toList_wrapped]
      rfl
    rw [shown]
    constructor
    · rintro ⟨other, told', ⟨⟩⟩
      exact .inl told'.eq_illegalOpen
    · rintro (rfl | ⟨-, less⟩ | ⟨earlier, other, same, -⟩)
      · exact ⟨'(', .opening 7, rfl⟩
      · omega
      · omega
  · obtain ⟨earlier, rfl⟩ : ∃ earlier, position = earlier + 8 := ⟨position - 8, by omega⟩
    rw [getElem?_wrapped (show earlier < inner.toList.length by omega)]
    constructor
    · rintro ⟨other, told', same⟩
      exact .inr (.inr ⟨earlier, other, rfl, told', same⟩)
    · rintro (same | ⟨-, less⟩ | ⟨earlier', other, same, told', same'⟩)
      · exact absurd same (apart (by omega))
      · omega
      · obtain rfl : earlier = earlier' := by omega
        exact ⟨other, told', same'⟩

/-- The position told is counted in the expression, so in the parameter the character that was refused
stands further on by what the wrapper has before it. What stands at the position itself can be refused for
the same cause only without a wrapper, or by coincidence. -/
theorem malformedPath_points_iff {d : Directive} (own : d.flag = "searchable") {s : AnnotationSet}
    {path : String} {cause : ExpressionError}
    (warned : .malformedPath path cause ∈ (applyOne (forTypedef g id) d s).rejections)
    (positioned : cause ≠ .unmatchedOpen) :
    ∃ position c, cause.At position c ∧ path.toList[position + lead path]? = some c ∧
      (cause.PointsInto path ↔
        ¬ IsWrapped path ∨ cause = .illegalOpen 7 ∨ (cause = .illegalName position ∧ position < 7) ∨
          ∃ earlier other, position = earlier + 8 ∧ cause.At position other ∧
            (unwrapKeys path).1.toList[earlier]? = some other) := by
  rw [applyOne_searchable g id own] at warned
  obtain ⟨position, c, told, there⟩ := parse_error_at (parse_of_malformedPath warned) positioned
  refine ⟨position, c, told, getElem?_lead there, ?_⟩
  by_cases wrapped : IsWrapped path
  · obtain ⟨inner, rfl⟩ := wrapped
    rw [unwrapKeys_wrapped] at there ⊢
    rw [pointsInto_wrapped told there, or_iff_right (not_not_intro ⟨inner, rfl⟩)]
  · rw [unwrapKeys_plain wrapped] at there
    exact iff_of_true ⟨position, c, told, there⟩ (.inl wrapped)

theorem malformedPath_points_iff_wrapped :
    let d : Directive := ⟨"searchable", "ws_subset keys_of(.a)"⟩
    let warning : Rejection := .malformedPath "keys_of(.a)" (.illegalDot 0)
    warning ∈ (applyOne (forTypedef document ⟨7⟩) d ∅).rejections ∧
      warning.message = "has invalid path 'keys_of(.a)': illegal use of '.' at position 0" ∧
      "keys_of(.a)".toList[0]? = some 'k' ∧ "keys_of(.a)".toList[8]? = some '.' ∧
      ¬ (ExpressionError.illegalDot 0).PointsInto "keys_of(.a)" := by
  intro d warning
  have warned : warning ∈ (applyOne (forTypedef document ⟨7⟩) d ∅).rejections := by decide +kernel
  obtain ⟨position, c, told, -, points⟩ := malformedPath_points_iff (d := d) rfl warned (by decide)
  obtain rfl := told.position_eq (.dot 0)
  refine ⟨warned, by decide +kernel, rfl, rfl, fun right => ?_⟩
  rcases points.mp right with plain | other | ⟨other, -⟩ | ⟨earlier, -, same, -⟩
  · exact plain ⟨".a", rfl⟩
  · cases other
  · cases other
  · omega

end Rule

end IdlDirectives
