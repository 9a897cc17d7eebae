import ContractRegistry.Catalog

/-!
Why a source is refused.
-/
namespace ContractRegistry

/-- What is wrong with a source. Lines count from one. -/
inductive SourceError where
  | unterminatedComment (line : Nat)
  | unterminatedString (line : Nat)
  | unexpectedToken (line : Nat) (expected : String) (found : String)
  | unexpectedEnd (expected : String)
  | invalidArrayLength (line : Nat) (expression : String)
  | noContract
  | contractNotFound (name : String)
  | unknownBase (contract : String) (base : String)
  | inconsistentBases (contract : String)
  | catalog (cause : CatalogError)
deriving DecidableEq, Repr

namespace SourceError

def atLine (line : Nat) : String :=
  "line " ++ toString line ++ ": "

def message : SourceError → String
  | .unterminatedComment line => atLine line ++ "unterminated block comment"
  | .unterminatedString line => atLine line ++ "unterminated string literal"
  | .unexpectedToken line expected found =>
    atLine line ++ "expected " ++ expected ++ ", found " ++ ticked found
  | .unexpectedEnd expected => "unexpected end of source, expected " ++ expected
  | .invalidArrayLength line expression =>
    atLine line ++ ticked expression ++ " is not a valid array length"
  | .noContract => "source declares no contract"
  | .contractNotFound name => "contract " ++ ticked name ++ " not found in source"
  | .unknownBase contract base =>
    "contract " ++ ticked contract ++ " inherits from unknown " ++ ticked base
  | .inconsistentBases contract =>
    "inheritance of " ++ ticked contract ++ " cannot be linearized"
  | .catalog cause => cause.message

end SourceError

end ContractRegistry
