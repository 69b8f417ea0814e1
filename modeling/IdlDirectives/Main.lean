import IdlDirectives.Command.Arguments

namespace IdlDirectives

def usage : String :=
  "usage:\n" ++
  "  annotate FILE [-o FILE] [-p] [--config FILE] [--ignore-warnings] [--deny-warnings]\n" ++
  "  check FILE [--config FILE] [--ignore-warnings] [--deny-warnings]\n" ++
  "  path FILE TARGET EXPR [--keys-of]\n"

def reasonOf : IO.Error → String
  | .alreadyExists _ code details | .noFileOrDirectory _ code details
  | .interrupted _ code details | .invalidArgument _ code details
  | .permissionDenied _ code details | .resourceExhausted _ code details
  | .inappropriateType _ code details | .noSuchThing _ code details
  | .otherError code details | .resourceBusy code details | .resourceVanished code details
  | .unsupportedOperation code details | .hardwareFault code details
  | .unsatisfiedConstraints code details | .illegalOperation code details
  | .protocolError code details | .timeExpired code details =>
    details ++ " (os error " ++ code.toNat.repr ++ ")"
  | e => toString e

def readFile (file : String) : IO (Except String String) := do
  try
    let bytes ← IO.FS.withFile file .read (·.readBinToEnd)
    match String.fromUTF8? bytes with
    | none => return .error "stream did not contain valid UTF-8"
    | some text => return .ok text
  catch e => return .error (reasonOf e)

def writeFile (output : Output) : IO (Except String Unit) := do
  try
    IO.FS.withFile output.file .write fun handle => do
      handle.putStr output.text
      handle.flush
    return .ok ()
  catch e => return .error (reasonOf e)

def diagnosis : Command.Diagnosis where
  compilation _ := "not a compilation"
  config _ := "not a configuration"

/-- The output may itself be a stream, so it is written after what comes before it there. -/
def runCommand (command : Command) : IO UInt32 := do
  let texts ← command.inputs.mapM (fun file => return (file, ← readFile file))
  let p := command.plan diagnosis (fun file => (texts.lookup file).getD (.error "not read"))
  IO.eprint p.stderr
  IO.print p.stdout
  let written ← match p.output with
    | none => pure (.ok ())
    | some output => writeFile output
  match p.failureAfter written with
  | none => return 0
  | some e =>
    IO.eprint e.line
    return 1

end IdlDirectives

def main (words : List String) : IO UInt32 := do
  match IdlDirectives.Command.ofArguments? words with
  | some command => IdlDirectives.runCommand command
  | none =>
    IO.eprint IdlDirectives.usage
    return 2
