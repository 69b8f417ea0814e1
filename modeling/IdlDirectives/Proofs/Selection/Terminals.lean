import IdlDirectives.Proofs.Selection.Walk

namespace IdlDirectives

namespace Branches

theorem selectors_eq_nil {t : Branches} : t.selectors = [] ↔ t = .none := by
  cases t <;> simp [selectors]

theorem terminals_eq_filter_walk {t : Branches} (h : t.Ordered) :
    t.terminals = t.walk.filter (fun path => t.at? path = some .none) := by
  induction t with
  | none => rfl
  | branch first below others inner outer =>
    have here (path : List String) :
        (Branches.branch first below others).at? (first :: path) = below.at? path := by
      simp [at?, child?]
    have elsewhere : ∀ path ∈ others.walk,
        (Branches.branch first below others).at? path = others.at? path := by
      intro path member
      cases path with
      | nil => exact absurd member nil_not_mem_walk
      | cons name path =>
        have later : first < name := h.1 name (mem_selectors_of_mem_walk member)
        simp [at?, child?, String.ne_of_lt later]
    have down : (if below.selectors.isEmpty then [[]] else below.terminals) =
        ([] :: below.walk).filter (fun path => below.at? path = some .none) := by
      cases below with
      | none => rfl
      | branch name below others =>
        rw [inner h.2.1]
        simp [selectors, at?]
    rw [terminals, walk, List.filter_append, List.filter_map, down, outer h.2.2]
    congr 1
    · simp only [Function.comp_def, here]
    · refine List.filter_congr (fun path member => ?_)
      rw [elsewhere path member]

theorem mem_terminals {t : Branches} (h : t.Ordered) {path : List String} :
    path ∈ t.terminals ↔ path ≠ [] ∧ t.at? path = some .none := by
  rw [terminals_eq_filter_walk h, List.mem_filter, mem_walk h, decide_eq_true_eq]
  constructor
  · rintro ⟨⟨below, -⟩, terminal⟩
    exact ⟨below, terminal⟩
  · rintro ⟨below, terminal⟩
    exact ⟨⟨below, by rw [terminal]; rfl⟩, terminal⟩

/-- Always going down by the first branch ends at a terminal node. -/
theorem exists_at?_eq_none (t : Branches) : ∃ path, t.at? path = some .none := by
  induction t with
  | none => exact ⟨[], rfl⟩
  | branch first below others inner _ =>
    obtain ⟨path, terminal⟩ := inner
    exact ⟨first :: path, by simp [at?, child?, terminal]⟩

end Branches

namespace Selection

def Terminal (s : Selection) (path : List String) : Prop :=
  s.branches.at? path = some .none

instance (s : Selection) (path : List String) : Decidable (s.Terminal path) :=
  inferInstanceAs (Decidable (_ = _))

/-- What a path leads to is selected as a whole if the node there or one above it is terminal. -/
def SelectsWhole (s : Selection) (path : List String) : Prop :=
  ∃ above, above <+: path ∧ s.Terminal above

variable {s t : Selection} {path : List String}

theorem contains_snoc {node : Branches} (there : s.branches.at? path = some node) {selector : String} :
    s.Contains (path ++ [selector]) ↔ selector ∈ node.selectors := by
  rw [Contains, Branches.at?_append, there, ← Branches.child?_isSome]
  cases found : node.child? selector <;> simp [Branches.at?, found]

theorem terminal_iff :
    s.Terminal path ↔ s.Contains path ∧ ∀ selector, ¬ s.Contains (path ++ [selector]) := by
  constructor
  · intro terminal
    refine ⟨by rw [Contains, terminal]; rfl, ?_⟩
    intro selector below
    rw [contains_snoc terminal] at below
    simp [Branches.selectors] at below
  · rintro ⟨there, bare⟩
    obtain ⟨node, found⟩ := Option.isSome_iff_exists.mp there
    have childless : node.selectors = [] := by
      refine List.eq_nil_iff_forall_not_mem.mpr (fun selector member => ?_)
      exact bare selector ((contains_snoc found).mpr member)
    rw [Terminal, found, Branches.selectors_eq_nil.mp childless]

theorem Terminal.contains (terminal : s.Terminal path) : s.Contains path :=
  (terminal_iff.mp terminal).1

theorem Terminal.of_merge_left (terminal : (s.merge t).Terminal path) (there : s.Contains path) :
    s.Terminal path := by
  refine terminal_iff.mpr ⟨there, fun selector below => ?_⟩
  exact (terminal_iff.mp terminal).2 selector (contains_merge.mpr (.inl below))

theorem Terminal.of_merge_right (terminal : (s.merge t).Terminal path) (there : t.Contains path) :
    t.Terminal path := by
  refine terminal_iff.mpr ⟨there, fun selector below => ?_⟩
  exact (terminal_iff.mp terminal).2 selector (contains_merge.mpr (.inr below))

theorem exists_terminal_of_contains (there : s.Contains path) :
    ∃ terminal, s.Terminal terminal ∧ path <+: terminal := by
  obtain ⟨node, found⟩ := Option.isSome_iff_exists.mp there
  obtain ⟨more, terminal⟩ := node.exists_at?_eq_none
  refine ⟨path ++ more, ?_, List.prefix_append path more⟩
  rw [Terminal, Branches.at?_append, found]
  exact terminal

theorem selectsWhole_iff_terminal (there : s.Contains path) : s.SelectsWhole path ↔ s.Terminal path := by
  constructor
  · rintro ⟨above, ⟨more, rfl⟩, terminal⟩
    cases more with
    | nil => rwa [List.append_nil]
    | cons selector more =>
      rw [List.append_cons] at there
      exact absurd there.of_prefix ((terminal_iff.mp terminal).2 selector)
  · intro terminal
    exact ⟨path, List.prefix_refl path, terminal⟩

theorem terminals_eq_filter_walk (s : Selection) :
    s.branches.terminals = s.walk.filter (fun path => path ≠ [] ∧ s.Terminal path) := by
  have below : ∀ path ∈ s.branches.walk, path ≠ [] := by
    rintro path member rfl
    exact Branches.nil_not_mem_walk member
  rw [Branches.terminals_eq_filter_walk s.ordered, walk, List.filter_cons_of_neg (by simp)]
  refine List.filter_congr (fun path member => ?_)
  simp [below path member, Terminal]

end Selection

end IdlDirectives
