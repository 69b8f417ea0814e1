import IdlDirectives.Json.Basic
import IdlDirectives.NameMap

namespace IdlDirectives.Json

abbrev Record := List (String × Json)

def recordOfMembers? (names : List String) (members : List (String × Json)) : Option Record :=
  if names.all (fun name => (members.map Prod.fst).count name ≤ 1) then some members else none

def record? (names : List String) : Json → Option Record
  | .object members => recordOfMembers? names members
  | .array items => if items.length ≤ names.length then some (names.zip items) else none
  | _ => none

namespace Record

variable {α : Type}

def required? (r : Record) (name : String) (decode : Json → Option α) : Option α :=
  (r.lookup name).bind decode

def withDefault? (r : Record) (name : String) (decode : Json → Option α) (value : α) : Option α :=
  match r.lookup name with
  | none => some value
  | some v => decode v

def optional? (r : Record) (name : String) (decode : Json → Option α) : Option (Option α) :=
  match r.lookup name with
  | none => some none
  | some .null => some none
  | some v => (decode v).map some

end Record

def asText? : Json → Option String
  | .text value => some value
  | _ => none

def asBool? : Json → Option Bool
  | .bool value => some value
  | _ => none

def asList? {α : Type} (decode : Json → Option α) : Json → Option (List α)
  | .array items => items.mapM decode
  | _ => none

/-- Every value is read, also one that a later member with its name replaces. -/
def asMap? {α : Type} (decode : Json → Option α) : Json → Option (NameMap α)
  | .object members =>
    (members.mapM (fun member => (decode member.2).map (member.1, ·))).map NameMap.ofList
  | _ => none

def ofMap {α : Type} (encode : α → Json) (m : NameMap α) : Json :=
  .object (m.entries.map (fun entry => (entry.1, encode entry.2)))

def optionalMember {α : Type} (name : String) (encode : α → Json) (value : Option α) :
    List (String × Json) :=
  match value with
  | none => []
  | some v => [(name, encode v)]

end IdlDirectives.Json
