import IdlDirectives.Format.Compilation
import IdlDirectives.Json.Printer

namespace IdlDirectives

structure Options where
  config : Option String
  ignoreWarnings : Bool
  denyWarnings : Bool
deriving DecidableEq

inductive Command where
  | annotate (file : String) (output : Option String) (pretty : Bool) (options : Options)
  | check (file : String) (options : Options)
  | path (file target expression : String) (ofKeys : Bool)
deriving DecidableEq

inductive CommandError where
  | cannotRead (file reason : String)
  | cannotWrite (file reason : String)
  | invalidCompilation (file details : String)
  | invalidConfig (file details : String)
  | targetForm (target : String)
  | unknownType (target : String)
  | malformedPath (cause : ExpressionError)
  | invalidPath (cause : SelectionError)
  | deniedWarnings (count : Nat)
deriving DecidableEq

def CommandError.message : CommandError → String
  | .cannotRead file reason => "cannot read " ++ file ++ ": " ++ reason
  | .cannotWrite file reason => "cannot write " ++ file ++ ": " ++ reason
  | .invalidCompilation file details => "invalid compilation in " ++ file ++ ": " ++ details
  | .invalidConfig file details => "invalid config in " ++ file ++ ": " ++ details
  | .targetForm target => "'" ++ target ++ "' is not of the form Module.Type"
  | .unknownType target => "no type named '" ++ target ++ "'"
  | .malformedPath cause => "path syntax error: " ++ cause.message
  | .invalidPath cause => "invalid path: " ++ cause.message
  | .deniedWarnings count => count.repr ++ " annotation warning(s) with --deny-warnings"

def CommandError.line (e : CommandError) : String :=
  "error: " ++ e.message ++ "\n"

structure Output where
  file : String
  text : String
deriving DecidableEq

/-- A command reads its files first and writes at most one, at its end: what it does is a plan made from
what reading gives, finished by what writing gives. -/
structure Plan where
  stdout : String
  stderr : String
  output : Option Output
  /-- What fails once the output is written. -/
  failure : Option CommandError
deriving DecidableEq

structure Transcript where
  stdout : String
  stderr : String
  failed : Bool
deriving DecidableEq

namespace Plan

def fail (e : CommandError) : Plan := ⟨"", "", none, some e⟩

/-- Why a plan fails whose output was written with this result. A failed write hides any other
failure. -/
def failureAfter (p : Plan) (written : Except String Unit) : Option CommandError :=
  match p.output, written with
  | some output, .error reason => some (.cannotWrite output.file reason)
  | _, _ => p.failure

def finish (p : Plan) (written : Except String Unit) : Transcript :=
  match p.failureAfter written with
  | none => ⟨p.stdout, p.stderr, false⟩
  | some e => ⟨p.stdout, p.stderr ++ e.line, true⟩

end Plan

namespace Command

abbrev Reading := String → Except String String

/-- What the decoder says of a text that it refuses. -/
structure Diagnosis where
  compilation : String → String
  config : String → String

section

variable (diagnosis : Diagnosis) (read : Reading)

def loadCompilation (file : String) : Except CommandError Compilation :=
  match read file with
  | .error reason => .error (.cannotRead file reason)
  | .ok text =>
    match Compilation.parse? text with
    | none => .error (.invalidCompilation file (diagnosis.compilation text))
    | some c => .ok c

def loadSettings (options : Options) : Except CommandError Settings := do
  let settings ←
    match options.config with
    | none => .ok Settings.standard
    | some file =>
      match read file with
      | .error reason => .error (.cannotRead file reason)
      | .ok text =>
        match Settings.parse? text with
        | none => .error (.invalidConfig file (diagnosis.config text))
        | some settings => .ok settings
  return { settings with ignoreWarnings := options.ignoreWarnings || settings.ignoreWarnings }

/-- Warnings are denied whether or not they are printed. -/
def denial? (options : Options) (report : Report) : Option CommandError :=
  if options.denyWarnings && !report.warnings.isEmpty then
    some (.deniedWarnings report.warnings.length)
  else none

def planAnnotate (file : String) (output : Option String) (pretty : Bool)
    (options : Options) : Except CommandError Plan := do
  let c ← loadCompilation diagnosis read file
  let settings ← loadSettings diagnosis read options
  let pass := c.pass settings
  let text := pass.compilation.toJson.render (if pretty then .pretty else .compact)
  return {
    stdout := if output.isNone then text ++ "\n" else ""
    stderr := pass.report.summary?.getD ""
    output := output.map (⟨·, text⟩)
    failure := denial? options pass.report }

def planCheck (file : String) (options : Options) : Except CommandError Plan := do
  let c ← loadCompilation diagnosis read file
  let settings ← loadSettings diagnosis read options
  let report := c.report settings
  let counts := file ++ " - " ++ report.modules.repr ++ " modules, " ++ report.types.repr ++
    " types, " ++ report.functions.repr ++ " functions, " ++ report.warnings.length.repr ++ " warnings\n"
  return {
    stdout := report.summary?.getD "" ++ counts
    stderr := ""
    output := none
    failure := denial? options report }

def splitTarget? (target : String) : Option (String × String) :=
  let cs := target.toList
  match cs.dropWhile (· ≠ '.') with
  | [] => none
  | _ :: name => some (String.ofList (cs.takeWhile (· ≠ '.')), String.ofList name)

def selectionAt (c : Compilation) (target expression : String) (ofKeys : Bool) :
    Except CommandError Selection := do
  let some (module, name) := splitTarget? target | .error (.targetForm target)
  let some id := c.types.lookup module name | .error (.unknownType target)
  let (inner, wrapped) := Expression.unwrapKeys expression
  let selection ← (Expression.parse inner).mapError .malformedPath
  (c.types.check (ofKeys || wrapped) id selection).mapError .invalidPath
  return selection

def planPath (file target expression : String) (ofKeys : Bool) : Except CommandError Plan := do
  let c ← loadCompilation diagnosis read file
  let selection ← selectionAt c target expression ofKeys
  return {
    stdout := selection.toJson.render .pretty ++ "\n"
    stderr := ""
    output := none
    failure := none }

def plan (command : Command) : Plan :=
  let planned :=
    match command with
    | .annotate file output pretty options => planAnnotate diagnosis read file output pretty options
    | .check file options => planCheck diagnosis read file options
    | .path file target expression ofKeys => planPath diagnosis read file target expression ofKeys
  match planned with
  | .ok p => p
  | .error e => .fail e

end

def inputs : Command → List String
  | .annotate file _ _ options | .check file options => file :: options.config.toList
  | .path file _ _ _ => [file]

end Command

end IdlDirectives
