/-!
Failures of two kinds: errors, which are told to the caller, and panics, which end the program.
-/
namespace ContractRegistry

/-- An operation on machine numbers that has no result. -/
inductive Panic where
  | addition
  | division
  | shift
deriving DecidableEq, Repr

inductive Failure (ε : Type) where
  | told (cause : ε)
  | panic (p : Panic)
deriving DecidableEq, Repr

namespace Failure

variable {ε ε' α : Type}

def map (wider : ε → ε') : Failure ε → Failure ε'
  | .told cause => .told (wider cause)
  | .panic p => .panic p

def tell : Except ε α → Except (Failure ε) α
  | .ok a => .ok a
  | .error cause => .error (.told cause)

end Failure

end ContractRegistry
