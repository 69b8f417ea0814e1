import IdlDirectives.Proofs.Expression.Grammar
import IdlDirectives.Proofs.Selection.Nodes

namespace IdlDirectives

theorem bind_eq_ok {ε α β : Type} {x : Except ε α} {f : α → Except ε β} {b : β} :
    x >>= f = .ok b ↔ ∃ a, x = .ok a ∧ f a = .ok b := by
  cases x with
  | error e => exact ⟨nofun, fun ⟨_, found, _⟩ => nomatch found⟩
  | ok a =>
    constructor
    · exact fun next => ⟨a, rfl, next⟩
    · rintro ⟨_, ⟨⟩, next⟩
      exact next

namespace Expression

namespace Reader

def base (r : Reader) : List String :=
  r.opened.head?.getD []

/-- What a reader becomes by one character that it accepts. -/
inductive Moves (r : Reader) : Char → Reader → Prop where
  | dot (named : r.name ≠ "") :
    Moves r '.' { r.endName with current := r.current ++ [r.name], phase := .segment }
  | opening (segment : r.phase = .segment) :
    Moves r '(' { r with opened := r.current :: r.opened }
  | closing {node : List String} {outer : List (List String)} (opened : r.opened = node :: outer) :
    Moves r ')' { r.endName with current := node, opened := outer, phase := .closed }
  | comma : Moves r ',' { r.endName with current := r.base, phase := .segment }
  | plain {c : Char} (plain : c ∉ delimiters) (unclosed : r.phase ≠ .closed) :
    Moves r c { r with name := r.name.push c, phase := .name }

theorem step_eq_ok {r next : Reader} {position : Nat} {c : Char} :
    r.step position c = .ok next ↔ r.Moves c next := by
  constructor
  · intro h
    unfold step at h
    split at h
    · next dot =>
      subst dot
      split at h
      · cases h
      · next named => cases h; exact .dot (by simpa [String.isEmpty_iff] using named)
    · split at h
      · next _ opening =>
        subst opening
        split at h
        · next segment => cases h; exact .opening segment
        · cases h
      · split at h
        · next _ _ closing =>
          subst closing
          split at h
          · cases h
          · next opened => cases h; exact .closing opened
        · split at h
          · next _ _ _ comma => subst comma; cases h; exact .comma
          · next notDot notOpening notClosing notComma =>
            split at h
            · cases h
            · next unclosed =>
              cases h
              exact .plain (by simp [delimiters, notDot, notOpening, notClosing, notComma]) unclosed
  · intro h
    cases h with
    | dot named => simp [step, String.isEmpty_iff, named]
    | opening segment => simp [step, segment]
    | closing opened => simp [step, opened]
    | comma => simp [step, base]
    | plain plain unclosed =>
      simp only [delimiters, List.mem_cons, List.not_mem_nil, or_false, not_or] at plain
      simp [step, plain, unclosed]

theorem run_cons {r after : Reader} {position : Nat} {c : Char} {cs : List Char} :
    r.run position (c :: cs) = .ok after ↔
      ∃ next, r.Moves c next ∧ next.run (position + 1) cs = .ok after := by
  rw [run, bind_eq_ok]
  simp only [step_eq_ok]

theorem run_append {r after : Reader} {position : Nat} {before rest : List Char} :
    r.run position (before ++ rest) = .ok after ↔
      ∃ middle, r.run position before = .ok middle ∧
        middle.run (position + before.length) rest = .ok after := by
  induction before generalizing r position with
  | nil => simp [run]
  | cons c before ih =>
    rw [List.cons_append, run_cons]
    simp only [run_cons, ih, List.length_cons, Nat.add_assoc, Nat.add_comm 1]
    constructor
    · rintro ⟨next, moves, middle, first, second⟩
      exact ⟨middle, ⟨next, moves, first⟩, second⟩
    · rintro ⟨middle, ⟨next, moves, first⟩, second⟩
      exact ⟨next, moves, middle, first, second⟩

@[simp] theorem endName_name (r : Reader) : r.endName.name = "" := by
  unfold endName
  split
  · next empty => exact String.isEmpty_iff.mp empty
  · rfl

@[simp] theorem endName_opened (r : Reader) : r.endName.opened = r.opened := by
  unfold endName
  split <;> rfl

/-- What holds between the parts of a reader. The open groups lie along the way to the current node,
all of these nodes have been selected, and characters of a name are held only while one goes on. -/
structure Consistent (r : Reader) : Prop where
  chain : (r.current :: r.opened).Pairwise (fun inner outer => outer <+: inner)
  there : ∀ node ∈ r.current :: r.opened, r.selection.Contains node
  named : r.name = "" ↔ r.phase ≠ .name

theorem start_consistent : start.Consistent where
  chain := by simp [start]
  there := by simp [start, Selection.contains_whole]
  named := by simp [start]

theorem contains_endName {r : Reader} (h : r.Consistent) {path : List String} :
    r.endName.selection.Contains path ↔
      r.selection.Contains path ∨ (r.name ≠ "" ∧ path = r.current ++ [r.name]) := by
  unfold endName
  split
  · next empty => simp [String.isEmpty_iff.mp empty]
  · next named =>
    have named : r.name ≠ "" := by simpa [String.isEmpty_iff] using named
    rw [Selection.contains_insert, List.prefix_concat_iff]
    constructor
    · rintro (there | rfl | above)
      · exact .inl there
      · exact .inr ⟨named, rfl⟩
      · obtain ⟨more, same⟩ := above
        have here := h.there r.current List.mem_cons_self
        rw [← same] at here
        exact .inl here.of_prefix
    · rintro (there | ⟨-, rfl⟩)
      · exact .inl there
      · exact .inr (.inl rfl)

theorem Consistent.base_contained {r : Reader} (h : r.Consistent) : r.selection.Contains r.base := by
  cases opened : r.opened with
  | nil => simp [base, opened, Selection.contains_nil]
  | cons node outer =>
    simp only [base, opened, List.head?_cons, Option.getD_some]
    exact h.there node (by simp [opened])

theorem Consistent.of_moves {r next : Reader} {c : Char} (h : r.Consistent) (moves : r.Moves c next) :
    next.Consistent := by
  have grows {path : List String} (there : r.selection.Contains path) :
      r.endName.selection.Contains path := (contains_endName h).mpr (.inl there)
  obtain ⟨above, chain⟩ := List.pairwise_cons.mp h.chain
  cases moves with
  | dot named =>
    refine ⟨?_, ?_, by simp⟩
    · refine List.pairwise_cons.mpr ⟨?_, by simpa using chain⟩
      intro node member
      exact (above node (by simpa using member)).trans (List.prefix_append _ _)
    · intro node member
      rcases List.mem_cons.mp member with rfl | member
      · exact (contains_endName h).mpr (.inr ⟨named, rfl⟩)
      · exact grows (h.there node (List.mem_cons_of_mem _ (by simpa using member)))
  | opening segment =>
    refine ⟨?_, ?_, h.named⟩
    · refine List.pairwise_cons.mpr ⟨?_, h.chain⟩
      intro node member
      rcases List.mem_cons.mp member with rfl | member
      · exact List.prefix_refl _
      · exact above node member
    · intro node member
      exact h.there node (by simpa using member)
  | closing opened =>
    rw [opened] at chain
    refine ⟨chain, ?_, by simp⟩
    intro node member
    exact grows (h.there node (List.mem_cons_of_mem _ (opened ▸ member)))
  | comma =>
    refine ⟨?_, ?_, by simp⟩
    · refine List.pairwise_cons.mpr ⟨?_, by simpa using chain⟩
      intro node member
      cases opened : r.opened with
      | nil => simp [opened] at member
      | cons first outer =>
        rw [opened] at chain
        simp only [endName_opened, opened, List.mem_cons] at member
        simp only [base, opened, List.head?_cons, Option.getD_some]
        rcases member with rfl | member
        · exact List.prefix_refl _
        · exact (List.pairwise_cons.mp chain).1 node member
    · intro node member
      rcases List.mem_cons.mp member with rfl | member
      · exact grows h.base_contained
      · exact grows (h.there node (List.mem_cons_of_mem _ (by simpa using member)))
  | plain plain unclosed => exact ⟨h.chain, h.there, by simp [String.push_ne_empty]⟩

theorem Consistent.of_run {r after : Reader} {position : Nat} {cs : List Char} (h : r.Consistent)
    (ran : r.run position cs = .ok after) : after.Consistent := by
  induction cs generalizing r position with
  | nil => cases ran; exact h
  | cons c cs ih =>
    obtain ⟨next, moves, rest⟩ := run_cons.mp ran
    exact ih (h.of_moves moves) rest

end Reader

end Expression

end IdlDirectives
