import IdlDirectives.NameMap
import IdlDirectives.Selection.Basic

namespace IdlDirectives

structure Identifier where
  type : String
  attributes : List String
deriving DecidableEq

structure Bounds where
  minimum : Option String
  exclusiveMinimum : Option Bool
  maximum : Option String
  exclusiveMaximum : Option Bool
deriving DecidableEq

namespace Bounds

def unbounded : Bounds := ⟨none, none, none, none⟩

instance : Inhabited Bounds := ⟨unbounded⟩

def isEmpty (b : Bounds) : Bool :=
  b.minimum.isNone && b.maximum.isNone

end Bounds

structure Searchable where
  fields : Selection
  keys : Selection
deriving DecidableEq

namespace Searchable

def nothing : Searchable := ⟨.whole, .whole⟩

instance : Inhabited Searchable := ⟨nothing⟩

def merge (s other : Searchable) : Searchable where
  fields := s.fields.merge other.fields
  keys := s.keys.merge other.keys

end Searchable

/-- What the directives on one declaration amount to. -/
structure AnnotationSet where
  optional : List String
  deprecated : Option (List String)
  identifier : Option Identifier
  bounds : Option Bounds
  searchable : Option Searchable
  metadata : NameMap String
  /-- The bodies of the unrecognized directives of each flag, in order. -/
  unknown : NameMap (List String)
deriving DecidableEq

namespace AnnotationSet

def empty : AnnotationSet := ⟨[], none, none, none, none, ∅, ∅⟩

instance : EmptyCollection AnnotationSet := ⟨empty⟩

instance : Inhabited AnnotationSet := ⟨empty⟩

def isEmpty (s : AnnotationSet) : Bool :=
  s.optional.isEmpty && s.deprecated.isNone && s.identifier.isNone && s.bounds.isNone &&
    s.searchable.isNone && s.metadata.isEmpty && s.unknown.isEmpty

def addUnknown (s : AnnotationSet) (flag body : String) : AnnotationSet :=
  { s with unknown := s.unknown.alter flag (fun bodies => bodies.getD [] ++ [body]) }

def appendNew (kept : List String) : List String → List String
  | [] => kept
  | name :: rest => appendNew (if name ∈ kept then kept else kept ++ [name]) rest

def appendBodies (kept more : NameMap (List String)) : NameMap (List String) :=
  more.entries.foldl
    (fun kept entry => kept.alter entry.1 (fun bodies => bodies.getD [] ++ entry.2)) kept

def addNames (kept more : NameMap String) : NameMap String :=
  more.entries.foldl (fun kept entry => kept.alter entry.1 (fun value => value.getD entry.2)) kept

def merge (s other : AnnotationSet) : AnnotationSet where
  optional := appendNew s.optional other.optional
  deprecated :=
    match other.deprecated with
    | none => s.deprecated
    | some replacements => some (s.deprecated.getD [] ++ replacements)
  identifier := s.identifier <|> other.identifier
  bounds := other.bounds <|> s.bounds
  searchable :=
    match other.searchable with
    | none => s.searchable
    | some more => some ((s.searchable.getD .nothing).merge more)
  metadata := addNames s.metadata other.metadata
  unknown := appendBodies s.unknown other.unknown

end AnnotationSet

end IdlDirectives
