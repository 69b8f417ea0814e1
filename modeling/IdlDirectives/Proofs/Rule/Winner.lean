import IdlDirectives.Rule.Basic

namespace IdlDirectives

namespace Directive

variable {α : Type} {gives : Directive → α → Prop} {value : α} {d : Directive} {rest : List Directive}

/-- The value is given by a directive, and none before that one gives any. -/
def First (gives : Directive → α → Prop) (ds : List Directive) (value : α) : Prop :=
  ∃ before d after, ds = before ++ d :: after ∧ gives d value ∧
    ∀ earlier ∈ before, ∀ other, ¬ gives earlier other

def Last (gives : Directive → α → Prop) (ds : List Directive) (value : α) : Prop :=
  ∃ before d after, ds = before ++ d :: after ∧ gives d value ∧
    ∀ later ∈ after, ∀ other, ¬ gives later other

theorem not_first_nil : ¬ First gives [] value := by
  rintro ⟨before, d, after, cut, -⟩
  exact List.append_ne_nil_of_right_ne_nil before (by simp) cut.symm

theorem not_last_nil : ¬ Last gives [] value := by
  rintro ⟨before, d, after, cut, -⟩
  exact List.append_ne_nil_of_right_ne_nil before (by simp) cut.symm

theorem first_cons :
    First gives (d :: rest) value ↔
      gives d value ∨ (∀ other, ¬ gives d other) ∧ First gives rest value := by
  constructor
  · rintro ⟨_ | ⟨head, before⟩, winner, after, cut, given, none⟩
    · cases cut
      exact .inl given
    · cases cut
      exact .inr ⟨none d List.mem_cons_self,
        before, winner, after, rfl, given, fun earlier member => none earlier (.tail d member)⟩
  · rintro (given | ⟨silent, before, winner, after, rfl, given, none⟩)
    · exact ⟨[], d, rest, rfl, given, nofun⟩
    · refine ⟨d :: before, winner, after, rfl, given, ?_⟩
      rintro earlier (_ | ⟨_, member⟩)
      · exact silent
      · exact none earlier member

theorem exists_first {ds : List Directive} (some : ∃ d ∈ ds, ∃ value, gives d value) :
    ∃ value, First gives ds value := by
  induction ds with
  | nil =>
    obtain ⟨d, member, -⟩ := some
    cases member
  | cons d rest ih =>
    by_cases given : ∃ value, gives d value
    · obtain ⟨value, given⟩ := given
      exact ⟨value, first_cons.mpr (.inl given)⟩
    · have silent : ∀ other, ¬ gives d other := fun other here => given ⟨other, here⟩
      obtain ⟨giver, member, value, here⟩ := some
      rcases List.mem_cons.mp member with rfl | later
      · exact absurd here (silent value)
      · obtain ⟨winner, first⟩ := ih ⟨giver, later, value, here⟩
        exact ⟨winner, first_cons.mpr (.inr ⟨silent, first⟩)⟩

theorem last_cons :
    Last gives (d :: rest) value ↔
      Last gives rest value ∨ (∀ later ∈ rest, ∀ other, ¬ gives later other) ∧ gives d value := by
  constructor
  · rintro ⟨_ | ⟨head, before⟩, winner, after, cut, given, none⟩
    · cases cut
      exact .inr ⟨none, given⟩
    · cases cut
      exact .inl ⟨before, winner, after, rfl, given, none⟩
  · rintro (⟨before, winner, after, rfl, given, none⟩ | ⟨none, given⟩)
    · exact ⟨d :: before, winner, after, rfl, given, none⟩
    · exact ⟨[], d, rest, rfl, given, none⟩

end Directive

namespace Rule

open Directive (First Last)

variable {α : Type} {rules : List Rule} {held : AnnotationSet → Option α} {gives : Directive → α → Prop}

section First

variable (step : ∀ d s value, held (applyOne rules d s).annotations = some value ↔
  held s = some value ∨ held s = none ∧ gives d value)

include step

theorem held_of_some (ds : List Directive) {s : AnnotationSet} {value : α} (there : held s = some value) :
    held (applyAll rules s ds).1 = some value := by
  induction ds generalizing s with
  | nil => exact there
  | cons d rest ih => exact ih ((step d s value).mpr (.inl there))

theorem held_applyAll_first (ds : List Directive) {s : AnnotationSet} (absent : held s = none) (value : α) :
    held (applyAll rules s ds).1 = some value ↔ First gives ds value := by
  induction ds generalizing s with
  | nil =>
    refine iff_of_false ?_ Directive.not_first_nil
    intro there
    rw [applyAll, absent] at there
    cases there
  | cons d rest ih =>
    have here : held (applyOne rules d s).annotations = some value ↔ gives d value := by
      rw [step, absent]
      simp
    rw [Directive.first_cons, applyAll]
    cases taken : held (applyOne rules d s).annotations with
    | none =>
      have silent (other : α) : ¬ gives d other := by
        intro given
        have there := (step d s other).mpr (.inr ⟨absent, given⟩)
        rw [taken] at there
        cases there
      simp only [ih taken, silent, not_false_eq_true, implies_true, true_and, false_or]
    | some other =>
      have given : gives d other := by simpa [absent] using (step d s other).mp taken
      rw [held_of_some step rest taken, ← taken, here]
      exact (or_iff_left (fun later => later.1 other given)).symm

end First

theorem held_applyAll_last
    (step : ∀ d s value, held (applyOne rules d s).annotations = some value ↔
      gives d value ∨ (∀ other, ¬ gives d other) ∧ held s = some value)
    (ds : List Directive) (s : AnnotationSet) (value : α) :
    held (applyAll rules s ds).1 = some value ↔
      Last gives ds value ∨ (∀ d ∈ ds, ∀ other, ¬ gives d other) ∧ held s = some value := by
  induction ds generalizing s with
  | nil => simp [applyAll, Directive.not_last_nil]
  | cons d rest ih =>
    rw [applyAll, ih, step, Directive.last_cons, List.forall_mem_cons, and_or_left, or_assoc, and_assoc,
      and_left_comm]

end Rule

end IdlDirectives
