import IdlDirectives.Command.Basic

namespace IdlDirectives

inductive FileError where
  | missing
  | isFolder
  | notFolder
  | nameTooLong
  | notText
deriving DecidableEq

def FileError.message : FileError → String
  | .missing => "No such file or directory (os error 2)"
  | .isFolder => "Is a directory (os error 21)"
  | .notFolder => "Not a directory (os error 20)"
  | .nameTooLong => "File name too long (os error 36)"
  | .notText => "stream did not contain valid UTF-8"

inductive Device where
  | null
  | stdout
  | stderr
deriving DecidableEq

inductive Place where
  | within (names : List String)
  | outside (names : List String)
deriving DecidableEq

namespace Place

def parent : Place → Place
  | .within [] => .outside ["tmp"]
  | .within names => .within names.dropLast
  | .outside names => .outside names.dropLast

def child (p : Place) (name : String) : Place :=
  match p with
  | .within names => .within (names ++ [name])
  | .outside names => .outside (names ++ [name])

def device? : Place → Option Device
  | .outside ["dev", "null"] => some .null
  | .outside ["dev", "stdout"] => some .stdout
  | .outside ["dev", "stderr"] => some .stderr
  | _ => none

end Place

structure Route where
  start : Place
  names : List String
  closed : Bool

namespace Route

def maxName : Nat := 255

def maxPath : Nat := 4095

def parse (path : String) : Except FileError Route :=
  let parts := path.toList.splitOnP (· == '/')
  if path.isEmpty then .error .missing
  else if maxPath < path.utf8ByteSize then .error .nameTooLong
  else
    .ok {
      start := if parts.head? = some [] then .outside [] else .within []
      names := (parts.filter (· ≠ [])).map String.ofList
      closed := parts.getLast? = some [] }

def toRead (r : Route) : List String :=
  if r.closed then r.names ++ ["."] else r.names

/-- The names that are followed to write a file. What ends in a slash would be a folder, so its name
is not looked up. -/
def toWrite (r : Route) : List String :=
  if r.closed then r.names.dropLast ++ ["."] else r.names

end Route

/-- Files in memory by their paths. Folders among them are there as long as they hold a file. -/
structure Folder where
  files : NameMap ByteArray

inductive Destination where
  | file (names : List String)
  | device (d : Device)
deriving DecidableEq

namespace Folder

def pathName (path : List String) : String :=
  "/".intercalate path

def hasFile (d : Folder) : Place → Bool
  | .within names => d.files.contains (pathName names)
  | .outside names => (Place.outside names).device?.isSome

def hasFolder (d : Folder) : Place → Bool
  | .within names =>
    (pathName names).isEmpty ||
      d.files.keys.any (fun name => (pathName names ++ "/").toList.isPrefixOf name.toList)
  | .outside names => [[], ["dev"], ["tmp"]].contains names

def step (d : Folder) (place : Place) (name : String) : Except FileError Place :=
  if d.hasFile place then .error .notFolder
  else if !d.hasFolder place then .error .missing
  else if name = "." then .ok place
  else if name = ".." then .ok place.parent
  else if Route.maxName < name.utf8ByteSize then .error .nameTooLong
  else .ok (place.child name)

def locate (d : Folder) (start : Place) (names : List String) : Except FileError Place := do
  let place ← names.foldlM d.step start
  if d.hasFolder place then .error .isFolder else .ok place

def readText (d : Folder) (path : String) : Except FileError String := do
  let r ← Route.parse path
  match ← d.locate r.start r.toRead with
  | .outside names => if (Place.outside names).device?.isSome then .ok "" else .error .missing
  | .within names =>
    match d.files.get? (pathName names) with
    | none => .error .missing
    | some bytes =>
      match String.fromUTF8? bytes with
      | none => .error .notText
      | some text => .ok text

/-- Nothing is kept of what is written outside the folder. -/
def destination (d : Folder) (path : String) : Except FileError Destination := do
  let r ← Route.parse path
  match ← d.locate r.start r.toWrite with
  | .within names => return .file names
  | .outside names => return .device ((Place.outside names).device?.getD .null)

def writeText (d : Folder) (names : List String) (text : String) : Folder :=
  ⟨d.files.insert (pathName names) text.toUTF8⟩

def reading (d : Folder) : Command.Reading :=
  fun file => (d.readText file).mapError FileError.message

end Folder

def Plan.sendTo (p : Plan) (text : String) : Device → Plan
  | .null => { p with output := none }
  | .stdout => { p with stdout := p.stdout ++ text, output := none }
  | .stderr => { p with stderr := p.stderr ++ text, output := none }

namespace Command

def runIn (diagnosis : Diagnosis) (d : Folder) (command : Command) : Transcript × Folder :=
  let p := plan diagnosis d.reading command
  match p.output with
  | none => (p.finish (.ok ()), d)
  | some output =>
    match d.destination output.file with
    | .error e => (p.finish (.error e.message), d)
    | .ok (.file names) => (p.finish (.ok ()), d.writeText names output.text)
    | .ok (.device device) => ((p.sendTo output.text device).finish (.ok ()), d)

end Command

end IdlDirectives
