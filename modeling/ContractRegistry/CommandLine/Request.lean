import ContractRegistry.CommandLine.Usage

/-!
What the program is asked to do.
-/
namespace ContractRegistry.CommandLine

structure LayoutRequest where
  source : String
  contract : Option String
  json : Bool
deriving DecidableEq, Repr, Inhabited

structure BatchRequest where
  addresses : List String
  metadataDir : String
  store : Option String
  backfillBin : Option String
  backfillArgs : List String
  noBackfill : Bool
  apiKey : Option String
  credential : Option String
  /-- How often rejected addresses may be submitted again. -/
  retries : Nat
  json : Bool
deriving DecidableEq, Repr, Inhabited

def BatchRequest.backfillProgram (r : BatchRequest) : Option String :=
  if r.noBackfill then none else r.backfillBin

inductive Request where
  | layout (r : LayoutRequest)
  | batch (r : BatchRequest)
deriving DecidableEq, Repr, Inhabited

structure Invocation where
  request : Request
  logJson : Bool
deriving DecidableEq, Repr, Inhabited

abbrev Environment := String → Option String

def logJsonOption : String × Arity := ("log-json", .switch)

def layoutUsage : Usage where
  options := [("contract", .single .text), ("json", .switch), logJsonOption]
  operand := "<SOURCE>"
  operandKind := .path
  several := false

def batchUsage : Usage where
  options := [("metadata-dir", .single .path), ("store", .single .path),
    ("backfill-bin", .single .path), ("backfill-arg", .repeated), ("no-backfill", .switch),
    ("api-key", .single .text), ("credential", .single .text), ("retries", .single .count),
    ("json", .switch), logJsonOption]
  operand := "<ADDRESSES>"
  operandKind := .text
  several := true

namespace Reading

def switch (r : Reading) (name : String) : Bool :=
  r.has (.option name)

def valueOr (r : Reading) (u : Usage) (e : Environment) (name variableName : String) :
    Except UsageError (Option String) :=
  match r.value? name, e variableName with
  | some value, _ => .ok (some value)
  | none, none => .ok none
  | none, some value => do
    (u.kind (.option name)).check (u.ownerName (.option name)) value
    .ok (some value)

end Reading

def layoutRequest (arguments : List String) : Except UsageError Invocation := do
  let r ← layoutUsage.read arguments
  match r.values .operand with
  | source :: _ =>
    .ok ⟨.layout ⟨source, r.value? "contract", r.switch "json"⟩, r.switch "log-json"⟩
  | [] => .error (.missingArguments [layoutUsage.operand])

/-- The batch request of the arguments behind its name. What is missing is reported last. -/
def batchRequest (e : Environment) (arguments : List String) : Except UsageError Invocation := do
  let r ← batchUsage.read arguments
  let backfillBin ← r.valueOr batchUsage e "backfill-bin" "BACKFILL_BIN"
  let apiKey ← r.valueOr batchUsage e "api-key" "ONBOARD_API_KEY"
  let credential ← r.valueOr batchUsage e "credential" "ONBOARD_CREDENTIAL"
  match r.values .operand, r.value? "metadata-dir" with
  | [], none => .error (.missingArguments ["--metadata-dir", batchUsage.operand])
  | [], some _ => .error (.missingArguments [batchUsage.operand])
  | _ :: _, none => .error (.missingArguments ["--metadata-dir"])
  | addresses, some metadataDir =>
    .ok ⟨.batch {
      addresses, metadataDir, backfillBin, apiKey, credential
      store := r.value? "store"
      backfillArgs := r.values (.option "backfill-arg")
      noBackfill := r.switch "no-backfill"
      retries := ((r.value? "retries").bind count?).getD 0
      json := r.switch "json" }, r.switch "log-json"⟩

def commandNames : List String := ["layout", "batch", "help"]

/-- Help on a command, or on all. No command has commands of its own. -/
def helpOn : List String → UsageError
  | [] => .help
  | [name] => if commandNames.contains name then .help else .unknownCommand name
  | name :: next :: _ =>
    if commandNames.contains name then .unknownCommand next else .unknownCommand name

/-- What is wrong with an argument in the place of a command behind a lone pair of hyphens. -/
def notACommand (text : String) : UsageError :=
  if commandNames.contains text then .unknownArgument text else .unknownCommand text

def withoutCommand (logJson : Bool) : UsageError :=
  if logJson then .missingCommand else .nothingGiven

def commandRequest (logJson : Bool) (request : Except UsageError Invocation) :
    Except UsageError Invocation := do
  let i ← request
  .ok { i with logJson := logJson || i.logJson }

def invocationAfter (e : Environment) (logJson : Bool) : List String → Except UsageError Invocation
  | [] => .error (withoutCommand logJson)
  | text :: texts =>
    if text = "layout" then commandRequest logJson (layoutRequest texts)
    else if text = "batch" then commandRequest logJson (batchRequest e texts)
    else if text = "help" then .error (helpOn texts)
    else
      match shape text with
      | .escape => .error ((texts.head?.map notACommand).getD (withoutCommand logJson))
      | .option "help" none => .error .help
      | .option "help" (some _) => .error (.needlessValue "--help")
      | .option "log-json" none =>
        if logJson then .error (.repeated "--log-json") else invocationAfter e true texts
      | .option "log-json" (some _) => .error (.needlessValue "--log-json")
      | .letter 'h' => .error .help
      | .option _ _ => .error (.unknownArgument text)
      | .letter _ => .error (.unknownArgument text)
      | .plain => .error (.unknownCommand text)

def Invocation.ofArguments (e : Environment) (arguments : List String) :
    Except UsageError Invocation :=
  invocationAfter e false arguments

end ContractRegistry.CommandLine
