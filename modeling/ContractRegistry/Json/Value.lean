/-!
JSON values.
-/
namespace ContractRegistry.Json

/-- A number is an integer of 64 bits, signed or not, or else a finite double, kept by its bits. -/
inductive Number where
  | integer (value : Int)
  | real (bits : UInt64)
deriving DecidableEq, Repr, Inhabited

inductive Value where
  | null
  | bool (truth : Bool)
  | number (number : Number)
  | string (text : String)
  | array (items : List Value)
  | object (members : List (String × Value))
deriving Repr, Inhabited

namespace Value

def nat (n : Nat) : Value :=
  .number (.integer n)

def members? : Value → Option (List (String × Value))
  | .object members => some members
  | _ => none

def text? : Value → Option String
  | .string text => some text
  | _ => none

def member? (name : String) : Value → Option Value
  | .object members => members.lookup name
  | _ => none

end Value

/-- Puts a member at its place in an object sorted by name, instead of one of the same name. -/
def insertMember (name : String) (value : α) : List (String × α) → List (String × α)
  | [] => [(name, value)]
  | (key, other) :: rest =>
    if name < key then (name, value) :: (key, other) :: rest
    else if key < name then (key, other) :: insertMember name value rest
    else (name, value) :: rest

/-- The members sorted by name. Of several with one name the last counts. -/
def sortMembers (members : List (String × α)) : List (String × α) :=
  members.foldl (fun sorted member => insertMember member.1 member.2 sorted) []

end ContractRegistry.Json
