import IdlDirectives.Proofs.Pass.Declarations

namespace IdlDirectives

theorem flatten_replicate_nodup {α : Type} {times : Nat} {names : List α} (distinct : names.Nodup) :
    (List.replicate times names).flatten.Nodup ↔ times ≤ 1 ∨ names = [] := by
  match times with
  | 0 => simp
  | 1 => simpa using distinct
  | more + 2 =>
    cases names with
    | nil => simp
    | cons name rest => simp [List.replicate_succ]

theorem flatten_replicate_eq_self {α : Type} {times : Nat} {names : List α} :
    (List.replicate times names).flatten = names ↔ times = 1 ∨ names = [] := by
  constructor
  · intro same
    have lengths : times * names.length = 1 * names.length := by
      simpa using congrArg List.length same
    rcases Nat.eq_zero_or_pos names.length with empty | some_name
    · exact .inr (List.eq_nil_of_length_eq_zero empty)
    · exact .inl (Nat.eq_of_mul_eq_mul_right some_name lengths)
  · intro once
    rcases once with rfl | rfl
    · simp
    · simp

theorem Rule.bodiesOf_eq_nil {ds : List Directive} : (∀ flag, bodiesOf flag ds = []) ↔ ds = [] := by
  constructor
  · intro none
    cases ds with
    | nil => rfl
    | cons d rest =>
      have first := none d.flag
      simp [bodiesOf] at first
  · intro empty flag
    rw [empty]
    rfl

/-- No replacement is there twice, and under each flag stand the bodies of the directives of the comment
that no rule is for, each once and in order. -/
structure AnnotationSet.FiledOnce (s : AnnotationSet) (rules : List Rule) (comment : String) : Prop where
  replacements : s.replacements.Nodup
  bodies : ∀ flag,
    s.bodies flag = Rule.bodiesOf flag (Rule.unrecognized rules (Directive.scan comment))

namespace TypeGraph

variable (g : TypeGraph) (id : TypeId)

theorem replacements_repeated (times : Nat) :
    ((List.replicate times (g.own id)).foldl AnnotationSet.merge ∅).replacements =
      (List.replicate times (g.own id).replacements).flatten := by
  rw [AnnotationSet.replacements_foldl_merge, List.flatMap_replicate]
  rfl

theorem bodies_repeated (times : Nat) (flag : String) :
    ((List.replicate times (g.own id)).foldl AnnotationSet.merge ∅).bodies flag =
      (List.replicate times ((g.own id).bodies flag)).flatten := by
  rw [AnnotationSet.bodies_foldl_merge, List.flatMap_replicate]
  rfl

theorem filedOnce_iff (times : Nat) :
    ((List.replicate times (g.own id)).foldl AnnotationSet.merge ∅).FiledOnce (Rule.forTypedef g id)
        (g.comment id) ↔
      times = 1 ∨
        (Rule.unrecognized (Rule.forTypedef g id) (Directive.scan (g.comment id)) = [] ∧
          (times = 0 ∨ (g.own id).replacements = [])) := by
  have distinct : (g.own id).Distinct := Rule.applyComment_distinct _ _ _
  have filed (flag : String) : (g.own id).bodies flag = _ := Rule.bodies_applyComment g id _ flag
  constructor
  · intro once
    have kept := once.replacements
    rw [replacements_repeated, flatten_replicate_nodup distinct.replacements] at kept
    by_cases one : times = 1
    · exact .inl one
    · have none : ∀ flag, Rule.bodiesOf flag
          (Rule.unrecognized (Rule.forTypedef g id) (Directive.scan (g.comment id))) = [] := by
        intro flag
        have bodies := once.bodies flag
        rw [bodies_repeated, filed, flatten_replicate_eq_self] at bodies
        exact bodies.resolve_left one
      refine .inr ⟨Rule.bodiesOf_eq_nil.mp none, ?_⟩
      rcases kept with few | nothing
      · exact .inl (by omega)
      · exact .inr nothing
  · intro condition
    refine ⟨?_, ?_⟩
    · rw [replacements_repeated, flatten_replicate_nodup distinct.replacements]
      rcases condition with rfl | ⟨_, rfl | nothing⟩
      · exact .inl (by decide)
      · exact .inl (by decide)
      · exact .inr nothing
    · intro flag
      rw [bodies_repeated, filed, flatten_replicate_eq_self]
      rcases condition with one | ⟨none, _⟩
      · exact .inl one
      · exact .inr (Rule.bodiesOf_eq_nil.mpr none flag)

end TypeGraph

namespace Compilation

/-- A typedef has its replacements and its unrecognized directives once exactly if one entry of the table
names it, or there is nothing that could be stored more or less often. -/
theorem pass_files_once_iff (c : Compilation) (settings : Settings) {id : TypeId} {definition : Typedef}
    (typedef : c.types.shape? id = some (.typedef definition)) :
    ∃ node, (c.pass settings).compilation.types.get? id = some node ∧
      (node.stored.FiledOnce (Rule.forTypedef c.types id) definition.comment ↔
        c.types.timesNamed id = 1 ∨
          (Rule.unrecognized (Rule.forTypedef c.types id) (Directive.scan definition.comment) = [] ∧
            (c.types.timesNamed id = 0 ∨
              (Rule.applyComment (Rule.forTypedef c.types id) definition.comment).1.replacements =
                []))) := by
  have comment : c.types.comment id = definition.comment := by
    rw [TypeGraph.comment, typedef]
    rfl
  obtain ⟨node, found, shape⟩ := Option.map_eq_some_iff.mp typedef
  have declares : node.shape.isDeclared := by
    rw [shape]
    rfl
  obtain ⟨after, there, _, stored, _⟩ := c.stored_pass settings found declares
  have once := c.types.filedOnce_iff id (c.types.timesNamed id)
  rw [← stored, TypeGraph.own, comment] at once
  exact ⟨after, there, once⟩

def twin : Typedef where
  module := "M"
  name := "A"
  comment := "@deprecated X.Y\n@foo bar"
  target := ⟨0⟩

def twins : Compilation where
  types :=
    { nodes := #[⟨.base (.scalar .int), none⟩, ⟨(.typedef twin), none⟩]
      table := ⟨[("M", ⟨[("A", ⟨1⟩), ("B", ⟨1⟩)], by decide⟩)], by decide⟩ }
  services := ∅

theorem pass_files_twins_twice :
    twins.types.shape? ⟨1⟩ = some (.typedef twin) ∧
    ∃ node, (twins.pass .standard).compilation.types.get? ⟨1⟩ = some node ∧
      ¬ node.stored.FiledOnce (Rule.forTypedef twins.types ⟨1⟩) twin.comment := by
  have typedef : twins.types.shape? ⟨1⟩ = some (.typedef twin) := rfl
  obtain ⟨node, there, once⟩ := pass_files_once_iff twins .standard typedef
  refine ⟨typedef, node, there, ?_⟩
  rw [once]
  decide +kernel

end Compilation

end IdlDirectives
