import IdlDirectives.AnnotationSet
import IdlDirectives.Directive
import IdlDirectives.Rejection

namespace IdlDirectives

structure Outcome where
  annotations : AnnotationSet
  rejections : List Rejection
deriving DecidableEq

namespace Outcome

def reject (annotations : AnnotationSet) (reason : Rejection) : Outcome :=
  ⟨annotations, [reason]⟩

end Outcome

structure Rule where
  flag : String
  apply : List String → AnnotationSet → Outcome

structure Flagged where
  flag : String
  reason : Rejection
deriving DecidableEq

namespace Rule

/-- Applies a directive by the first rule for its flag. -/
def applyOne (rules : List Rule) (d : Directive) (annotations : AnnotationSet) : Outcome :=
  match rules.find? (·.flag = d.flag) with
  | some rule => rule.apply d.params annotations
  | none => ⟨annotations.addUnknown d.flag d.body, [.unrecognized]⟩

def applyAll (rules : List Rule) (annotations : AnnotationSet) :
    List Directive → AnnotationSet × List Flagged
  | [] => (annotations, [])
  | d :: rest =>
    let outcome := applyOne rules d annotations
    let (final, later) := applyAll rules outcome.annotations rest
    (final, outcome.rejections.map (⟨d.flag, ·⟩) ++ later)

def applyComment (rules : List Rule) (comment : String) : AnnotationSet × List Flagged :=
  applyAll rules ∅ (Directive.scan comment)

theorem applyAll_append (rules : List Rule) (annotations : AnnotationSet)
    (before after : List Directive) :
    applyAll rules annotations (before ++ after) =
      ((applyAll rules (applyAll rules annotations before).1 after).1,
        (applyAll rules annotations before).2 ++
          (applyAll rules (applyAll rules annotations before).1 after).2) := by
  induction before generalizing annotations with
  | nil => simp [applyAll]
  | cons d before ih => simp [applyAll, ih, List.append_assoc]

end Rule

end IdlDirectives
