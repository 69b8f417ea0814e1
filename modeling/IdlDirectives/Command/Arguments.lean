import IdlDirectives.Command.Basic

namespace IdlDirectives

inductive Switch where
  | output
  | pretty
  | config
  | ignoreWarnings
  | denyWarnings
  | keysOf
deriving DecidableEq

namespace Switch

def ofLong? : String → Option Switch
  | "output" => some .output
  | "pretty" => some .pretty
  | "config" => some .config
  | "ignore-warnings" => some .ignoreWarnings
  | "deny-warnings" => some .denyWarnings
  | "keys-of" => some .keysOf
  | _ => none

def ofShort? : Char → Option Switch
  | 'o' => some .output
  | 'p' => some .pretty
  | _ => none

def takesValue : Switch → Bool
  | .output | .config => true
  | _ => false

end Switch

inductive Argument where
  | operand (text : String)
  | switch (kind : Switch) (value : String)
deriving DecidableEq

namespace Argument

def ofShorts? : List Char → Option (List Argument × Option Switch)
  | [] => some ([], none)
  | c :: rest => do
    let kind ← Switch.ofShort? c
    if kind.takesValue then
      match rest with
      | [] => return ([], some kind)
      | '=' :: value => return ([.switch kind (String.ofList value)], none)
      | value => return ([.switch kind (String.ofList value)], none)
    else
      let (arguments, open?) ← ofShorts? rest
      return (.switch kind "" :: arguments, open?)

def ofWord? (word : String) : Option (List Argument × Option Switch) :=
  match word.toList with
  | '-' :: '-' :: name => do
    let kind ← Switch.ofLong? (String.ofList (name.takeWhile (· ≠ '=')))
    match name.dropWhile (· ≠ '='), kind.takesValue with
    | [], true => return ([], some kind)
    | [], false => return ([.switch kind ""], none)
    | _ :: value, true => return ([.switch kind (String.ofList value)], none)
    | _ :: _, false => none
  | '-' :: c :: rest => ofShorts? (c :: rest)
  | _ => some ([.operand word], none)

/-- The arguments of a command line, of which a switch may still wait for its value. -/
def ofWords? (waiting : Option Switch) : List String → Option (List Argument)
  | [] => if waiting.isNone then some [] else none
  | word :: rest =>
    match waiting with
    | some kind => (ofWords? none rest).map (.switch kind word :: ·)
    | none =>
      if word = "--" then some (rest.map .operand)
      else do
        let (arguments, open?) ← ofWord? word
        return arguments ++ (← ofWords? open? rest)

def operands (arguments : List Argument) : List String :=
  arguments.filterMap fun
    | .operand text => some text
    | .switch _ _ => none

def value? (arguments : List Argument) (kind : Switch) : Option String :=
  arguments.findSome? fun
    | .switch found value => if found = kind then some value else none
    | .operand _ => none

def has (arguments : List Argument) (kind : Switch) : Bool :=
  (value? arguments kind).isSome

def onlyHas (arguments : List Argument) (kinds : List Switch) : Bool :=
  arguments.all fun
    | .switch kind _ => kinds.contains kind
    | .operand _ => true

end Argument

namespace Command

def optionsOf (arguments : List Argument) : Options where
  config := Argument.value? arguments .config
  ignoreWarnings := Argument.has arguments .ignoreWarnings
  denyWarnings := Argument.has arguments .denyWarnings

def ofArguments? (words : List String) : Option Command := do
  let name :: rest := words | none
  let arguments ← Argument.ofWords? none rest
  match name, Argument.operands arguments with
  | "annotate", [file] =>
    if Argument.onlyHas arguments [.output, .pretty, .config, .ignoreWarnings, .denyWarnings] then
      some (.annotate file (Argument.value? arguments .output) (Argument.has arguments .pretty)
        (optionsOf arguments))
    else none
  | "check", [file] =>
    if Argument.onlyHas arguments [.config, .ignoreWarnings, .denyWarnings] then
      some (.check file (optionsOf arguments))
    else none
  | "path", [file, target, expression] =>
    if Argument.onlyHas arguments [.keysOf] then
      some (.path file target expression (Argument.has arguments .keysOf))
    else none
  | _, _ => none

end Command

end IdlDirectives
