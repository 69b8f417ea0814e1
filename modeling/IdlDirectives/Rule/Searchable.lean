import IdlDirectives.Rule.Names

namespace IdlDirectives

structure SearchPath where
  selection : Selection
  ofKeys : Bool
deriving DecidableEq

namespace SearchPath

def parse (param : String) : Except ExpressionError SearchPath :=
  let (expression, ofKeys) := Expression.unwrapKeys param
  match Expression.parse expression with
  | .error cause => .error cause
  | .ok selection => .ok ⟨selection, ofKeys⟩

end SearchPath

namespace Searchable

def add (s : Searchable) (path : SearchPath) : Searchable :=
  if path.ofKeys then { s with keys := s.keys.merge path.selection }
  else { s with fields := s.fields.merge path.selection }

end Searchable

namespace Rule

def searchFault? (g : TypeGraph) (structureId : TypeId) (param : String) : Option Rejection :=
  match SearchPath.parse param with
  | .error cause => some (.malformedPath param cause)
  | .ok path =>
    match g.check path.ofKeys structureId path.selection with
    | .error cause => some (.invalidPath param cause)
    | .ok () => none

def addPaths (s : Searchable) (params : List String) : Searchable :=
  (params.filterMap (fun param => (SearchPath.parse param).toOption)).foldl Searchable.add s

def searchContext : String := "ws_subset"

/-- With `@searchable ws_subset path...` a structure says what is indexed for search. A path that cannot be
read adds nothing; one that does not fit the structure is reported and merged nevertheless. -/
def searchable (g : TypeGraph) (id : TypeId) : Rule where
  flag := "searchable"
  apply params annotations :=
    match requireStruct g id with
    | .error reason => .reject annotations reason
    | .ok resolved =>
      match params with
      | [] => .reject annotations (.missingParameter .searchContext)
      | context :: paths =>
        if context ≠ searchContext then
          .reject annotations (.unsupportedContext context searchContext)
        else
          ⟨{ annotations with
              searchable := some (addPaths (annotations.searchable.getD .nothing) paths) },
            paths.filterMap (searchFault? g resolved.id)⟩

end Rule

end IdlDirectives
