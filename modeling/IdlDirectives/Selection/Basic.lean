namespace IdlDirectives

/-- The branches of a node: the first one's selector and what is below it, then the others. -/
inductive Branches where
  | none
  | branch (selector : String) (below others : Branches)
deriving DecidableEq, Inhabited

namespace Branches

def selectors : Branches → List String
  | .none => []
  | .branch selector _ others => selector :: others.selectors

def Ordered : Branches → Prop
  | .none => True
  | .branch selector below others =>
    (∀ later ∈ others.selectors, selector < later) ∧ below.Ordered ∧ others.Ordered

def child? (selector : String) : Branches → Option Branches
  | .none => Option.none
  | .branch first below others => if first = selector then some below else others.child? selector

/-- Sets what is below a selector to `f` of what was there, nothing if the selector is new. -/
def adjust (selector : String) (f : Branches → Branches) : Branches → Branches
  | .none => .branch selector (f .none) .none
  | .branch first below others =>
    if selector < first then .branch selector (f .none) (.branch first below others)
    else if selector = first then .branch first (f below) others
    else .branch first below (others.adjust selector f)

def insert : List String → Branches → Branches
  | [], t => t
  | selector :: path, t => t.adjust selector (insert path)

def merge (t : Branches) : Branches → Branches
  | .none => t
  | .branch selector below others => (t.adjust selector (fun mine => mine.merge below)).merge others

def at? : List String → Branches → Option Branches
  | [], t => some t
  | selector :: path, t => (t.child? selector).bind (at? path)

def terminals : Branches → List (List String)
  | .none => []
  | .branch selector below others =>
    (if below.selectors.isEmpty then [[]] else below.terminals).map (selector :: ·) ++ others.terminals

theorem mem_selectors_adjust {selector name : String} {f : Branches → Branches} {t : Branches}
    (h : name ∈ (t.adjust selector f).selectors) : name = selector ∨ name ∈ t.selectors := by
  induction t with
  | none => simpa [adjust, selectors] using h
  | branch first below others _ ih =>
    simp only [adjust] at h
    split at h
    · simpa [selectors] using h
    · split at h
      · exact .inr (by simpa [selectors] using h)
      · simp only [selectors, List.mem_cons] at h ⊢
        rcases h with h | h
        · exact .inr (.inl h)
        · exact (ih h).imp_right .inr

theorem ordered_adjust {selector : String} {f : Branches → Branches} {t : Branches}
    (keeps : ∀ below : Branches, below.Ordered → (f below).Ordered) (h : t.Ordered) :
    (t.adjust selector f).Ordered := by
  induction t with
  | none => exact ⟨by simp [selectors], keeps _ trivial, trivial⟩
  | branch first below others _ ih =>
    obtain ⟨bound, ordered, rest⟩ := h
    simp only [adjust]
    split
    · next before =>
      refine ⟨?_, keeps _ trivial, bound, ordered, rest⟩
      intro later member
      rcases List.mem_cons.mp member with rfl | member
      · exact before
      · exact String.lt_trans before (bound later member)
    · split
      · exact ⟨bound, keeps _ ordered, rest⟩
      · next notBefore different =>
        refine ⟨?_, ordered, ih rest⟩
        intro later member
        rcases mem_selectors_adjust member with rfl | member
        · rcases Std.lt_trichotomy first later with h | h | h
          · exact h
          · exact absurd h.symm different
          · exact absurd h notBefore
        · exact bound later member

theorem ordered_insert (path : List String) {t : Branches} (h : t.Ordered) :
    (t.insert path).Ordered := by
  induction path generalizing t with
  | nil => exact h
  | cons selector path ih => exact ordered_adjust (fun _ => ih) h

theorem ordered_merge {t other : Branches} (h : t.Ordered) (h' : other.Ordered) :
    (t.merge other).Ordered := by
  induction other generalizing t with
  | none => exact h
  | branch selector below others inner outer =>
    exact outer (ordered_adjust (fun _ mine => inner mine h'.2.1) h) h'.2.2

theorem ordered_of_child? {selector : String} {t below : Branches} (h : t.Ordered)
    (found : t.child? selector = some below) : below.Ordered := by
  induction t with
  | none => simp [child?] at found
  | branch first inner others _ ih =>
    simp only [child?] at found
    split at found
    · exact Option.some.inj found ▸ h.2.1
    · exact ih h.2.2 found

end Branches

/-- A tree whose edges are selectors: the name of a field, `[*]` for the elements of a list, `*` for the
values of a mapping. A node without branches selects what it stands at as a whole. -/
structure Selection where
  branches : Branches
  ordered : branches.Ordered
deriving DecidableEq

namespace Selection

def whole : Selection := ⟨.none, trivial⟩

instance : Inhabited Selection := ⟨whole⟩

def isTerminal (s : Selection) : Bool :=
  s.branches.selectors.isEmpty

def selectors (s : Selection) : List String :=
  s.branches.selectors

def child? (s : Selection) (selector : String) : Option Selection :=
  match h : s.branches.child? selector with
  | none => none
  | some below => some ⟨below, Branches.ordered_of_child? s.ordered h⟩

def insert (s : Selection) (path : List String) : Selection :=
  ⟨s.branches.insert path, Branches.ordered_insert path s.ordered⟩

def replace (s : Selection) (selector : String) (below : Selection) : Selection :=
  ⟨s.branches.adjust selector (fun _ => below.branches),
    Branches.ordered_adjust (fun _ _ => below.ordered) s.ordered⟩

def merge (s other : Selection) : Selection :=
  ⟨s.branches.merge other.branches, Branches.ordered_merge s.ordered other.ordered⟩

def Contains (s : Selection) (path : List String) : Prop :=
  (s.branches.at? path).isSome

instance (s : Selection) (path : List String) : Decidable (s.Contains path) :=
  inferInstanceAs (Decidable (_ = true))

end Selection

/-- Joins selectors by dots. A dot is written only after a part that is not empty. -/
def dotted (path : List String) : String :=
  path.foldl (fun text selector => if text.isEmpty then selector else text ++ "." ++ selector) ""

def Selection.paths (s : Selection) : List String :=
  s.branches.terminals.map dotted

end IdlDirectives
