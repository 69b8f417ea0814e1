import IdlDirectives.Proofs.Command.Annotate
import IdlDirectives.Proofs.Expression.Wrapper
import IdlDirectives.Proofs.Rule.Accumulation

namespace IdlDirectives

namespace Expression

end Expression

namespace Rule

end Rule

namespace Command

variable {diagnosis : Diagnosis} {read : Reading} {file : String} {c : Compilation}
  {module name : String} {id : TypeId}

end Command

end IdlDirectives
