import ContractRegistry.Json.Grammar

/-!
Documents with known fields.

A record is written as an object, with its fields in any order and further members that do not count,
or as an array of its fields in their order. No field may be given twice.
-/
namespace ContractRegistry.Json

def refusal : String := "<json error>"

namespace Tree

def named? (members : List (List Text.Utf8.Piece × Tree)) : Option (List (String × Tree)) :=
  members.mapM fun (key, t) => do some (← contentText? key, t)

def onlyMember? (members : List (String × Tree)) (names : List String) : Option (Option Tree) :=
  match members.filter fun m => names.contains m.1 with
  | [] => some none
  | [m] => some (some m.2)
  | _ => none

/-- The fields of a record, each with all its names. A field that is not given is `none`. -/
def record? (fields : List (List String)) : Tree → Option (List (Option Tree))
  | .object members => do fields.mapM (onlyMember? (← named? members))
  | .array items =>
    if items.length ≤ fields.length then
      some (items.map some ++ List.replicate (fields.length - items.length) none)
    else none
  | _ => none

def stringText? : Tree → Option String
  | .string content => contentText? content
  | _ => none

def natural? (bound : Nat) : Tree → Option Nat
  | .number n =>
    match n.number? with
    | some (.integer value) =>
      if 0 ≤ value ∧ value.toNat < bound then some value.toNat else none
    | _ => none
  | _ => none

def items? : Tree → Option (List Tree)
  | .array items => some items
  | _ => none

def members? : Tree → Option (List (List Text.Utf8.Piece × Tree))
  | .object members => some members
  | _ => none

end Tree

end ContractRegistry.Json
