import ReversePolish.Operator
import ReversePolish.Registry.Basic

/-!
# Operators — the registry of the operators
-/

namespace ReversePolish

/-- The fixities of the operators under their symbols. -/
def Operator.registry : Registry Value :=
  .ofList (Operator.all.map fun o => (o.symbol, .fixity o.fixity))

end ReversePolish
