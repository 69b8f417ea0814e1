import IdlDirectives.Text.Blank

namespace IdlDirectives

/-- A line of a comment that starts with `@` once it is trimmed: the word after the sign, and what
follows that word. -/
structure Directive where
  flag : String
  body : String
deriving DecidableEq

namespace Directive

def params (d : Directive) : List String :=
  (Text.words d.body.toList).map String.ofList

/-- Blanks may stand between the sign and the flag; a sign without a flag is no directive. -/
def ofLine? (line : List Char) : Option Directive :=
  match Text.trim line with
  | '@' :: rest =>
    let named := Text.trimStart rest
    let flag := named.takeWhile (fun c => !Text.isBlank c)
    if flag.isEmpty then none
    else
      let body := named.dropWhile (fun c => !Text.isBlank c)
      some { flag := String.ofList flag, body := String.ofList (Text.trim body) }
  | _ => none

def parse? (line : String) : Option Directive :=
  ofLine? line.toList

def scan (comment : String) : List Directive :=
  (Text.lines comment.toList).filterMap ofLine?

def line (d : Directive) : String :=
  "@" ++ d.flag ++ " " ++ d.body

theorem scan_append_line (before after : String) :
    scan (before ++ "\n" ++ after) = scan before ++ scan after := by
  have cut : (before ++ "\n" ++ after).toList = before.toList ++ '\n' :: after.toList := by
    simp [String.toList_append]
  simp [scan, cut, Text.lines_append_cons]

end Directive

end IdlDirectives
