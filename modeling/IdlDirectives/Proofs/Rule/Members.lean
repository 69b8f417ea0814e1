import IdlDirectives.Rule.Catalogue

namespace IdlDirectives

/-- A member of a set of annotations, by how it is read and how it is replaced. -/
structure AnnotationSet.Member (α : Type) where
  read : AnnotationSet → α
  write : AnnotationSet → α → AnnotationSet

namespace AnnotationSet.Member

def optional : Member (List String) where
  read s := s.optional
  write s names := { s with optional := names }

def deprecated : Member (Option (List String)) where
  read s := s.deprecated
  write s names := { s with deprecated := names }

def identifier : Member (Option Identifier) where
  read s := s.identifier
  write s value := { s with identifier := value }

def bounds : Member (Option Bounds) where
  read s := s.bounds
  write s value := { s with bounds := value }

def searchable : Member (Option Searchable) where
  read s := s.searchable
  write s value := { s with searchable := value }

def metadata : Member (NameMap String) where
  read s := s.metadata
  write s value := { s with metadata := value }

end AnnotationSet.Member

namespace Rule

open AnnotationSet (Member)

/-- What a rule does to a set is what it does to the set that has nothing but one member of it. -/
def Owns {α : Type} (rule : Rule) (m : Member α) : Prop :=
  ∀ params s,
    rule.apply params s =
      ⟨m.write s (m.read (rule.apply params (m.write ∅ (m.read s))).annotations),
        (rule.apply params (m.write ∅ (m.read s))).rejections⟩

/-- What a rule leaves behind is what was there, but for the one member that `write` replaces. -/
def Writes {α : Type} (rule : Rule) (write : AnnotationSet → α → AnnotationSet) : Prop :=
  ∀ params s, ∃ value, (rule.apply params s).annotations = write s value

theorem Owns.writes {α : Type} {rule : Rule} {m : Member α} (owns : rule.Owns m) :
    rule.Writes m.write := by
  intro params s
  rw [owns params s]
  exact ⟨_, rfl⟩

theorem Writes.keeps {α β : Type} {rule : Rule} {write : AnnotationSet → α → AnnotationSet}
    (writes : rule.Writes write) {read : AnnotationSet → β}
    (apart : ∀ s value, read (write s value) = read s) (params : List String) (s : AnnotationSet) :
    read (rule.apply params s).annotations = read s := by
  obtain ⟨value, written⟩ := writes params s
  rw [written, apart]

variable (g : TypeGraph) (id : TypeId)

theorem optional_owns : (optional g id).Owns .optional := by
  intro params s
  simp only [optional]
  cases requireStruct g id with
  | error reason => rfl
  | ok resolved =>
    dsimp only
    split
    · rfl
    · rfl

theorem deprecatedType_owns : deprecatedType.Owns .deprecated :=
  fun _ _ => rfl

theorem deprecatedFunction_owns : deprecatedFunction.Owns .deprecated :=
  fun _ _ => rfl

theorem identifier_owns : (identifier g id).Owns .identifier := by
  intro params s
  simp only [identifier]
  cases g.resolve id with
  | error cause => rfl
  | ok resolved =>
    dsimp only
    split
    · rfl
    · obtain ⟨_, _, declared, _, _, _, _⟩ := s
      cases declared with
      | some first => rfl
      | none =>
        cases params with
        | nil => rfl
        | cons type attributes => rfl

theorem bounds_owns : (bounds g id).Owns .bounds := by
  intro params s
  simp only [bounds]
  cases g.resolve id with
  | error cause => rfl
  | ok resolved =>
    dsimp only
    split
    · rfl
    · cases Bounds.parse (String.join params) with
      | error reason => rfl
      | ok bounds => rfl

theorem searchable_owns : (searchable g id).Owns .searchable := by
  intro params s
  simp only [searchable]
  cases requireStruct g id with
  | error reason => rfl
  | ok resolved =>
    cases params with
    | nil => rfl
    | cons context paths =>
      dsimp only
      split
      · rfl
      · rfl

theorem metadata_owns : (metadata g id).Owns .metadata := by
  intro params s
  simp only [metadata]
  cases requireStruct g id with
  | error reason => rfl
  | ok resolved =>
    rcases params with _ | ⟨context, _ | ⟨first, rest⟩⟩
    · rfl
    · dsimp only
      split
      · rfl
      · rfl
    · dsimp only
      split
      · rfl
      · cases MetadataEntry.ofWords first rest with
        | error reason => rfl
        | ok entry =>
          by_cases taken : s.metadata.contains entry.name = true
          · simp only [Member.metadata, taken, if_true]
            rfl
          · simp only [Member.metadata, taken]
            rfl

end Rule

end IdlDirectives
