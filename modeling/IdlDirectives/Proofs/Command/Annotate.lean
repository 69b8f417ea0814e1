import IdlDirectives.Command.Basic
import IdlDirectives.Proofs.Format.Depth
import IdlDirectives.Proofs.Pass.Declarations
import IdlDirectives.Proofs.Pass.Outline
import IdlDirectives.Proofs.Rule.Searchable

namespace IdlDirectives

theorem Rule.searchable_forFunction (comment : String) :
    (applyComment forFunction comment).1.searchable = none := by
  refine applyAll_preserves (P := fun s => s.searchable = none) (fun rule member params s nothing => ?_)
    (fun s flag body nothing => nothing) _ rfl
  obtain rfl : rule = deprecatedFunction := by simpa [forFunction] using member
  exact (deprecatedFunction_owns.writes.keeps (fun _ _ => rfl) params s).trans nothing

theorem Rule.searchable_forModule (comment : String) :
    (applyComment forModule comment).1.searchable = none :=
  applyAll_preserves (P := fun s => s.searchable = none) (by simp [forModule])
    (fun s flag body nothing => nothing) _ rfl

namespace Compilation

variable (c : Compilation) (settings : Settings)

theorem modules_pass : (c.pass settings).compilation.modules = c.modules.map (·.settled) := by
  rw [modules_of_services (c.services_pass settings), modules_mapModules]

theorem selectsOnNodes_pass : (c.pass settings).compilation.SelectsOnNodes where
  modules m member s annotations := by
    rw [modules_pass] at member
    obtain ⟨before, -, rfl⟩ := List.mem_map.mp member
    obtain rfl := Option.some.inj annotations
    exact Rule.searchable_forModule before.comment
  functions f member s annotations := by
    rw [functions, modules_pass] at member
    obtain ⟨m, own, member⟩ := List.mem_flatMap.mp member
    obtain ⟨before, -, rfl⟩ := List.mem_map.mp own
    obtain ⟨g, -, rfl⟩ := List.mem_map.mp member
    obtain rfl := Option.some.inj annotations
    exact Rule.searchable_forFunction g.comment

/-- Paths of so many selectors are read, inside the seven arrays and objects that are around them in the
text of a compilation. -/
def readableSelectors : Nat := Json.nestingLimit - 7

theorem reads_pass {layout : Json.Layout} (blank : layout.Blank) {after : String}
    (trailing : ∀ c ∈ after.toList, Json.isSpace c = true) :
    Json.Reads (parse? ((c.pass settings).compilation.toJson.render layout ++ after))
      ((c.pass settings).compilation.types.SelectsWithin readableSelectors)
      (c.pass settings).compilation := by
  have depth : (c.pass settings).compilation.toJson.depth ≤ 117 + 10 ↔ _ :=
    depth_le (c.selectsOnNodes_pass settings)
  exact (codec.parse?_render blank _ trailing).congr depth

theorem pass_pass : (c.pass settings).compilation.pass settings = c.pass settings :=
  pass_of_outline (c.outline_pass settings) settings

end Compilation

def Plan.text (p : Plan) : String :=
  match p.output with
  | none => p.stdout
  | some output => output.text

namespace Command

variable {diagnosis : Diagnosis} {read : Reading} {file : String} {options : Options} {c : Compilation}
  {settings : Settings}

theorem loadCompilation_ok {text : String} (found : read file = .ok text)
    (parsed : Compilation.parse? text = some c) : loadCompilation diagnosis read file = .ok c := by
  rw [loadCompilation, found]
  simp only [parsed]

theorem loadCompilation_refused {text : String} (found : read file = .ok text)
    (malformed : Compilation.parse? text = none) :
    loadCompilation diagnosis read file = .error (.invalidCompilation file (diagnosis.compilation text)) := by
  rw [loadCompilation, found]
  simp only [malformed]

def annotating (c : Compilation) (settings : Settings) (output : Option String) (pretty : Bool)
    (options : Options) : Plan :=
  let text := (c.pass settings).compilation.toJson.render (if pretty then .pretty else .compact)
  { stdout := if output.isNone then text ++ "\n" else ""
    stderr := (c.pass settings).report.summary?.getD ""
    output := output.map (⟨·, text⟩)
    failure := denial? options (c.pass settings).report }

theorem planAnnotate_eq (loaded : loadCompilation diagnosis read file = .ok c)
    (configured : loadSettings diagnosis read options = .ok settings) (output : Option String)
    (pretty : Bool) :
    planAnnotate diagnosis read file output pretty options =
      .ok (annotating c settings output pretty options) := by
  rw [planAnnotate, loaded, configured]
  rfl

theorem blank_layout (pretty : Bool) : (if pretty then Json.Layout.pretty else .compact).Blank := by
  cases pretty with
  | false => exact Json.Layout.compact_blank
  | true => exact Json.Layout.pretty_blank

theorem text_annotating (c : Compilation) (settings : Settings) (output : Option String) (pretty : Bool)
    (options : Options) : ∃ layout after, layout.Blank ∧ (∀ c ∈ after.toList, Json.isSpace c = true) ∧
      (annotating c settings output pretty options).text =
        (c.pass settings).compilation.toJson.render layout ++ after := by
  cases output with
  | none => exact ⟨_, "\n", blank_layout pretty, by simp [Json.isSpace], rfl⟩
  | some name => exact ⟨_, "", blank_layout pretty, by simp, String.append_empty.symm⟩

/-- Where a compilation can be annotated, what that writes is read as what the pass left, and annotated
again to the same, if all paths are short enough. If not, it is refused. -/
theorem planAnnotate_again (loaded : loadCompilation diagnosis read file = .ok c)
    (configured : loadSettings diagnosis read options = .ok settings) (output : Option String)
    (pretty : Bool) :
    ∃ plan, planAnnotate diagnosis read file output pretty options = .ok plan ∧
      ∀ (again : Reading) (copy : String), again copy = .ok plan.text →
        loadSettings diagnosis again options = .ok settings →
        let after := (c.pass settings).compilation
        (after.types.SelectsWithin Compilation.readableSelectors →
          loadCompilation diagnosis again copy = .ok after ∧
            planAnnotate diagnosis again copy output pretty options = .ok plan) ∧
        (¬ after.types.SelectsWithin Compilation.readableSelectors →
          planAnnotate diagnosis again copy output pretty options =
            .error (.invalidCompilation copy (diagnosis.compilation plan.text))) := by
  refine ⟨_, planAnnotate_eq loaded configured output pretty, ?_⟩
  intro again copy copied reconfigured after
  obtain ⟨layout, trailing, blank, spaces, text⟩ := text_annotating c settings output pretty options
  have reads := c.reads_pass settings blank spaces
  rw [text] at copied ⊢
  constructor
  · intro within
    have reloaded : loadCompilation diagnosis again copy = .ok after :=
      loadCompilation_ok copied (reads.found within)
    refine ⟨reloaded, ?_⟩
    have same : annotating after settings output pretty options =
        annotating c settings output pretty options := by
      simp only [annotating, after, c.pass_pass settings]
    rw [planAnnotate_eq reloaded reconfigured, same]
  · intro beyond
    have refused := @loadCompilation_refused diagnosis again copy _ copied (reads.missing beyond)
    rw [planAnnotate, refused]
    rfl

section Descent

variable (count : Nat)

def descent : Expression.Items :=
  let a : Expression.Name := ⟨['a'], by decide, by simp [Expression.delimiters]⟩
  .one (.mk (List.replicate count a) (.name a))

def descending : Typedef where
  module := "M"
  name := "T"
  comment := String.ofList
    ('@' :: "searchable".toList ++ ' ' :: ("ws_subset".toList ++ ' ' :: (descent count).text))
  target := ⟨0⟩

/-- A structure with a field of its own type, and a path that goes down through it. -/
def nested : Compilation where
  types :=
    { nodes := #[⟨.base (.struct [⟨"a", ⟨1⟩⟩]), none⟩, ⟨(.typedef (descending count)), none⟩]
      table := ⟨[("M", ⟨[("T", ⟨1⟩)], by decide⟩)], by decide⟩ }
  services := ∅

theorem text_descent : (descent count).text = (List.replicate count ['a', '.']).flatten ++ ['a'] := by
  simp [descent, Expression.Items.text, Expression.Item.text, Expression.Tail.text, List.flatMap_replicate]

theorem requireStruct_nested :
    Rule.requireStruct (nested count).types ⟨1⟩ = .ok ⟨⟨0⟩, .struct [⟨"a", ⟨1⟩⟩], 1⟩ := by
  have typedef : (nested count).types.shape? ⟨1⟩ = some (.typedef (descending count)) := rfl
  have struct : (nested count).types.shape? (descending count).target =
      some (.base (.struct [⟨"a", ⟨1⟩⟩])) := rfl
  rw [Rule.requireStruct, TypeGraph.resolve, TypeGraph.resolveFrom_eq, typedef]
  simp only [List.not_mem_nil, if_false]
  rw [TypeGraph.resolveFrom_eq, struct]
  rfl

theorem fields_descent : List.isPrefixOf? "keys_of(".toList (descent count).text = none := by
  rw [text_descent]
  cases count with
  | zero => rfl
  | succ count => rfl

theorem solid_descent : ∀ c ∈ (descent count).text, Text.isBlank c = false := by
  intro c member
  rw [text_descent] at member
  have either : c = 'a' ∨ c = '.' := by
    rcases List.mem_append.mp member with early | last
    · obtain ⟨piece, there, own⟩ := List.mem_flatten.mp early
      obtain rfl := List.eq_of_mem_replicate there
      simpa using own
    · exact .inl (List.mem_singleton.mp last)
  rcases either with rfl | rfl
  · decide
  · decide

theorem selects_nested (settings : Settings) :
    ¬ ((nested count).pass settings).compilation.types.SelectsWithin count := by
  intro within
  have denoted : (descent count).Denotes [] (List.replicate (count + 1) "a") := by
    refine .inr ?_
    simp [Expression.Tail.Denotes, Expression.below, Expression.Name.text, List.replicate_succ']
  have own : (nested count).types.own ⟨1⟩ =
      (Rule.applyComment (Rule.forTypedef (nested count).types ⟨1⟩) (descending count).comment).1 := rfl
  have stored : ((nested count).types.own ⟨1⟩).searchable =
      some (Rule.addPaths .nothing [String.ofList (descent count).text]) := by
    rw [own, descending]
    exact Rule.searchable_applyComment (requireStruct_nested count) (by simp [text_descent])
      (solid_descent count)
  have selected := Rule.addPaths_fields (fields_descent count) denoted
  have entry : (⟨"M", "T", ⟨1⟩⟩ : TypeGraph.Entry) ∈ (nested count).types.named := List.mem_singleton.mpr rfl
  have node := (nested count).entry_pass settings entry
    (fun other there _ => List.mem_singleton.mp there) rfl rfl
  -- the stored selection goes down as far as the path in the comment, one selector beyond the count
  have long := within _ (Array.mem_of_getElem? node) _ rfl _ stored _ (.inl selected)
  rw [List.length_replicate] at long
  omega

end Descent

theorem planAnnotate_again_nested :
    let refusal := "recursion limit exceeded at line 1 column 1069"
    let diagnosis : Diagnosis := ⟨fun _ => refusal, fun _ => refusal⟩
    ∃ plan,
      planAnnotate diagnosis (fun _ => .ok ((nested 120).toJson.render .compact)) "in.json"
        (some "out.json") false ⟨none, false, false⟩ = .ok plan ∧
      planAnnotate diagnosis (fun _ => .ok plan.text) "out.json" (some "out.json") false
        ⟨none, false, false⟩ = .error (.invalidCompilation "out.json" refusal) := by
  intro refusal diagnosis
  have loaded : loadCompilation diagnosis (fun _ => .ok ((nested 120).toJson.render .compact)) "in.json" =
      .ok (nested 120) := by
    have shallow : (nested 120).toJson.depth ≤ Json.nestingLimit := by decide
    exact loadCompilation_ok rfl ((Compilation.codec.readsBack.compact (nested 120)).trans (if_pos shallow))
  obtain ⟨plan, annotated, again⟩ := planAnnotate_again loaded
    (rfl : loadSettings diagnosis _ ⟨none, false, false⟩ = .ok .standard) (some "out.json") false
  exact ⟨plan, annotated, (again _ "out.json" rfl rfl).2 (selects_nested 120 .standard)⟩

end Command

end IdlDirectives
