import ContractRegistry.Backfill
import ContractRegistry.Console.Style
import ContractRegistry.Json.Printer
import ContractRegistry.Onboarding

/-!
What is shown: tables of layouts, the outcomes of batches, and both as documents.
-/
namespace ContractRegistry.Console

open Json (Value)

/-- Lines as text. Each one is ended. -/
def unlines (lines : List String) : String :=
  String.join (lines.map fun line => line ++ "\n")

def assignmentDocument (a : Assignment) : Value :=
  .object [("name", .string a.name), ("offset", .nat a.offset), ("role", .string a.role.name),
    ("signature", .string a.signature), ("size", .nat a.size), ("slot", .nat a.slot)]

def layoutDocument (contract : String) (l : Layout) : Value :=
  .object [("contract", .string contract),
    ("layout", .object [("assignments", .array (l.assignments.map assignmentDocument)),
      ("slots_used", .nat l.slotsUsed)])]

def failureDocument (failure : String × Rejection) : Value :=
  .object [("address", .string failure.1), ("reason", .string failure.2.message),
    ("stage", .string failure.2.stage.name)]

def runDocument (accepted : List String) (failed : List (String × Rejection)) : Value :=
  .object [("fail", .array (failed.map failureDocument)),
    ("success", .array (accepted.map .string))]

def documentLines (document : Value) : List String := [document.pretty]

namespace Terminal

def headline (t : Terminal) (title : String) : List String :=
  ["", t.paint .title ("=== " ++ title ++ " ===")]

def placeWidth : Nat := 12
def roleWidth : Nat := 7

def nameWidth (l : Layout) : Nat :=
  (l.assignments.map fun a => a.name.utf8ByteSize).foldl max 0

def dataLine (t : Terminal) (data : Word) : String :=
  "  " ++ String.ofList (padEnd placeWidth []) ++ " " ++ t.paint .faint ("data at " ++ data.hex)

def assignmentLines (t : Terminal) (width : Nat) (a : Assignment) : List String :=
  ("  " ++ t.column .value placeWidth a.location ++ " " ++
    String.ofList (padEnd width a.name.toList) ++ " " ++
    t.column .faint roleWidth a.role.label ++ " " ++ t.paint .faint a.signature) ::
      (a.dataSlot?.map t.dataLine).toList

def layoutLines (t : Terminal) (contract : String) (l : Layout) : List String :=
  t.headline ("Storage layout: " ++ contract) ++
    ["  " ++ t.paint .faint "Slots used:" ++ " " ++ t.paint .value (toString l.slotsUsed)] ++
    if l.assignments = [] then ["  " ++ t.paint .faint "(no storage variables)"]
    else l.assignments.flatMap (t.assignmentLines (nameWidth l))

def okMark (t : Terminal) : String := t.paint .success "OK"

def acceptedLine (t : Terminal) (address : String) (id : Nat) (name : String) : String :=
  "  " ++ t.okMark ++ " " ++ t.paint .value address ++ " → #" ++ t.paint .value (toString id) ++
    " " ++ t.paint .faint name

def rejectedLine (t : Terminal) (address : String) (reason : Rejection) : String :=
  let mark := if reason.isTransient then t.paint .warning "RETRY" else t.paint .failure "FAIL"
  "  " ++ mark ++ " " ++ t.paint .value address ++ " at " ++ t.paint .stage reason.stage.name ++
    ": " ++ reason.message

def acceptedLines (t : Terminal) (outcomes : List Outcome) : List String :=
  outcomes.filterMap fun
    | .accepted address id name => some (t.acceptedLine address id name)
    | .rejected _ _ => none

def rejectedLines (t : Terminal) (outcomes : List Outcome) : List String :=
  outcomes.filterMap fun
    | .accepted _ _ _ => none
    | .rejected address reason => some (t.rejectedLine address reason)

def roundTitle (round : Nat) : String :=
  if round = 0 then "Onboarding" else "Retry #" ++ toString round

def dispatchLine (t : Terminal) (ids : List Nat) : String :=
  "  " ++ t.okMark ++ " Backfill dispatched for contracts " ++
    t.paint .value (",".intercalate (ids.map toString))

/-- The lines about a round: the accepted addresses, the rejected ones, and what was handed on. -/
def roundLines (t : Terminal) (round : Nat) (r : BatchReport α) : List String :=
  t.headline (roundTitle round) ++ t.acceptedLines r.outcomes ++ t.rejectedLines r.outcomes ++
    (r.backfill.map fun b => t.dispatchLine b.1).toList

def totalLines (t : Terminal) (accepted failed : Nat) : List String :=
  let failures := if failed = 0 then toString failed else t.paint .failure (toString failed)
  ["", "  " ++ t.paint .success (toString accepted) ++ " accepted, " ++ failures ++ " rejected"]

def savedLine (t : Terminal) (path : String) (contracts : Nat) : String :=
  "  " ++ t.okMark ++ " Store saved to " ++ t.paint .faint path ++ " (" ++
    t.paint .value (toString contracts) ++ " contracts)"

def noBackfillLine (t : Terminal) : String :=
  "  " ++ t.paint .warning "WARNING:" ++ " " ++ t.paint .faint "No backfill dispatched."

def backfillLine (t : Terminal) : Except BackfillError BackfillSummary → String
  | .ok summary =>
    "  " ++ t.okMark ++ " Backfill finished for " ++ t.paint .value (toString summary.ids.length) ++
      " contracts (" ++ t.paint .faint (toString summary.stdoutLines) ++ " stdout, " ++
      t.paint .faint (toString summary.stderrLines) ++ " stderr lines)"
  | .error e => "  " ++ t.paint .failure "BACKFILL FAILED" ++ " " ++ e.message

def backfillLines (t : Terminal) (results : List (Except BackfillError BackfillSummary)) :
    List String :=
  if results.isEmpty then [t.noBackfillLine] else results.map t.backfillLine

end Terminal

end ContractRegistry.Console
