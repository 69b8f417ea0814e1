import IdlDirectives.Rule.Names

namespace IdlDirectives.Rule

def identifierFaults (type : String) (attributes : List String) : List Rejection :=
  if type = "kb" ∨ type = "handle" then
    if attributes.isEmpty then [] else [.unexpectedAttributes type attributes]
  else if type = "external" then []
  else if type = "ws" then
    (keepNames (fun kept name => unqualified? .type name <|> repeated? kept name) [] attributes).2
  else [.unknownIdType type]

/-- With `@id <type> [attribute...]` a string is the identifier of some other object. Faults in the type or
its attributes are reported, and the directive counts nevertheless. -/
def identifier (g : TypeGraph) (id : TypeId) : Rule where
  flag := "id"
  apply params annotations :=
    match g.resolve id with
    | .error cause => .reject annotations (.unresolved cause)
    | .ok resolved =>
      if resolved.type ≠ .scalar .string then
        .reject annotations (.typeMismatch .string resolved.type)
      else if annotations.identifier.isSome then .reject annotations .multipleDeclarations
      else
        match params with
        | [] => .reject annotations (.missingParameter .idType)
        | type :: attributes =>
          ⟨{ annotations with identifier := some ⟨type, attributes⟩ },
            identifierFaults type attributes⟩

end IdlDirectives.Rule
