import IdlDirectives.Rule.Basic

namespace IdlDirectives.Rule

/-- Appends to the names kept so far each one that nothing is held against. -/
def keepNames (objection? : List String → String → Option Rejection) (kept : List String) :
    List String → List String × List Rejection
  | [] => (kept, [])
  | name :: rest =>
    match objection? kept name with
    | none => keepNames objection? (kept ++ [name]) rest
    | some reason =>
      let (final, reasons) := keepNames objection? kept rest
      (final, reason :: reasons)

def isQualified (name : String) : Bool :=
  match name.toList.splitOnP (· == '.') with
  | [module, own] => !module.isEmpty && !own.isEmpty
  | _ => false

def unqualified? (referent : Referent) (name : String) : Option Rejection :=
  if isQualified name then none else some (.malformedName name referent)

def repeated? (kept : List String) (name : String) : Option Rejection :=
  if name ∈ kept then some (.duplicate name) else none

/-- The base type of a typedef that stands for a structure. -/
def requireStruct (g : TypeGraph) (id : TypeId) : Except Rejection Resolved :=
  match g.resolve id with
  | .error cause => .error (.unresolved cause)
  | .ok resolved =>
    if resolved.type.isStruct then .ok resolved
    else .error (.typeMismatch .struct resolved.type)

/-- Names fields that may be left out. It belongs on the typedef that defines the structure. -/
def optional (g : TypeGraph) (id : TypeId) : Rule where
  flag := "optional"
  apply params annotations :=
    match requireStruct g id with
    | .error reason => .reject annotations reason
    | .ok resolved =>
      if resolved.depth ≠ 1 then .reject annotations (.notDirectStructure resolved.depth)
      else
        let objection? (kept : List String) (name : String) :=
          if (resolved.type.field? name).isNone then some (.unknownField name) else repeated? kept name
        let (names, reasons) := keepNames objection? annotations.optional params
        ⟨{ annotations with optional := names }, reasons⟩

def deprecatedType : Rule where
  flag := "deprecated"
  apply params annotations :=
    let objection? (kept : List String) (name : String) :=
      unqualified? .type name <|> repeated? kept name
    let (names, reasons) := keepNames objection? (annotations.deprecated.getD []) params
    ⟨{ annotations with deprecated := some names }, reasons⟩

/-- Deprecates a function, in favour of others if they are named. Repetitions are kept. -/
def deprecatedFunction : Rule where
  flag := "deprecated"
  apply params annotations :=
    let (names, reasons) :=
      keepNames (fun _ name => unqualified? .function name) (annotations.deprecated.getD []) params
    ⟨{ annotations with deprecated := some names }, reasons⟩

end IdlDirectives.Rule
