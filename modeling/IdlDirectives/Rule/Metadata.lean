import IdlDirectives.Rule.Names

namespace IdlDirectives

structure MetadataEntry where
  name : String
  expression : String
deriving DecidableEq

namespace MetadataEntry

def isAs (word : String) : Bool :=
  word.toList.map Char.toLower == ['a', 's']

/-- Splits the words of an expression, of which `first` is never `as`, at the first `as`. -/
def ofWords (first : String) (rest : List String) : Except Rejection MetadataEntry :=
  let expression := String.join (first :: rest.takeWhile (!isAs ·))
  match rest.dropWhile (!isAs ·) with
  | [] => .ok ⟨expression, expression⟩
  | [_] => .error .missingMetadataName
  | _ :: name => .ok ⟨" ".intercalate name, expression⟩

end MetadataEntry

namespace Rule

def metadataContext : String := "ws"

/-- With `@metadata ws <expression> [as <name...>]` an expression over the fields of a structure is named. -/
def metadata (g : TypeGraph) (id : TypeId) : Rule where
  flag := "metadata"
  apply params annotations :=
    match requireStruct g id with
    | .error reason => .reject annotations reason
    | .ok _ =>
      match params with
      | [] => .reject annotations (.missingParameter .metadataContext)
      | context :: words =>
        if context ≠ metadataContext then
          .reject annotations (.unsupportedContext context metadataContext)
        else
          match words with
          | [] => .reject annotations (.missingParameter .metadataExpression)
          | first :: rest =>
            match MetadataEntry.ofWords first rest with
            | .error reason => .reject annotations reason
            | .ok entry =>
              if annotations.metadata.contains entry.name then
                .reject annotations (.metadataRedefinition entry.name)
              else
                ⟨{ annotations with
                    metadata := annotations.metadata.insert entry.name entry.expression }, []⟩

end Rule

end IdlDirectives
