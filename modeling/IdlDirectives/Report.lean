import IdlDirectives.Rejection

namespace IdlDirectives

inductive Declaration where
  | module (name : String)
  | typedef (module name : String)
  | function (module name : String)
deriving DecidableEq

namespace Declaration

def text : Declaration → String
  | .module name => "module " ++ name
  | .typedef owner name => "typedef " ++ qualified owner name
  | .function owner name => "funcdef " ++ qualified owner name

end Declaration

structure Warning where
  flag : String
  target : Declaration
  reason : Rejection
deriving DecidableEq

namespace Warning

def heading : String := "ANNOTATION WARNING"

def text (w : Warning) : String :=
  heading ++ ": annotation '@" ++ w.flag ++ "' " ++ w.reason.message ++ "\n    in " ++ w.target.text

end Warning

structure Report where
  warnings : List Warning
  modules : Nat
  types : Nat
  functions : Nat
  suppressed : Bool
deriving DecidableEq

namespace Report

def empty : Report := ⟨[], 0, 0, 0, false⟩

instance : Inhabited Report := ⟨empty⟩

def warningsFor (r : Report) (target : Declaration) : List Warning :=
  r.warnings.filter (·.target = target)

def log (r : Report) : String :=
  String.join (r.warnings.map (fun w => w.text ++ "\n"))

def summary? (r : Report) : Option String :=
  if r.suppressed || r.warnings.isEmpty then none
  else some ("total annotation warnings: " ++ r.warnings.length.repr ++ "\n" ++ r.log)

end Report

end IdlDirectives
