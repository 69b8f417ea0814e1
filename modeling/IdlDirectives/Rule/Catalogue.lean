import IdlDirectives.Rule.Identifier
import IdlDirectives.Rule.Interval
import IdlDirectives.Rule.Metadata
import IdlDirectives.Rule.Searchable

namespace IdlDirectives.Rule

def forTypedef (g : TypeGraph) (id : TypeId) : List Rule :=
  [optional g id, deprecatedType, identifier g id, bounds g id, searchable g id, metadata g id]

def forFunction : List Rule :=
  [deprecatedFunction]

def forModule : List Rule :=
  []

end IdlDirectives.Rule
