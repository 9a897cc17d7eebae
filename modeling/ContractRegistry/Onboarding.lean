import ContractRegistry.Metadata
import ContractRegistry.Source.Contract
import ContractRegistry.Store
import ContractRegistry.Text.Quoted

/-!
Onboarding: from submitted addresses to stored contracts.

Each address goes through four stages by itself: its metadata is fetched, the source is parsed, the
layout is resolved, and events and contract are stored. An address that fails by an error is rejected,
and the others go on. A panic on the way of an address ends all work. The numbers of all accepted
contracts of a batch are handed on together.
-/
namespace ContractRegistry

inductive Stage where
  | fetching
  | parsing
  | resolving
  | persisting
deriving DecidableEq, Repr, Inhabited

def Stage.name : Stage → String
  | .fetching => "fetching"
  | .parsing => "parsing"
  | .resolving => "resolving"
  | .persisting => "persisting"

/-- Why an address is rejected. -/
inductive Rejection where
  | invalidAddress (text : String)
  | fetch (cause : FetchError)
  | source (cause : SourceError)
  | layout (cause : LayoutError)
  | store (cause : StoreError)
deriving DecidableEq, Repr

namespace Rejection

def message : Rejection → String
  | .invalidAddress text => "invalid address " ++ Text.Quoted.quote text
  | .fetch cause => cause.message
  | .source cause => cause.message
  | .layout cause => cause.message
  | .store cause => cause.message

def stage : Rejection → Stage
  | .invalidAddress _ => .fetching
  | .fetch _ => .fetching
  | .source _ => .parsing
  | .layout _ => .resolving
  | .store _ => .persisting

def isTransient : Rejection → Bool
  | .fetch cause => cause.isTransient
  | .store cause => cause.isTransient
  | _ => false

end Rejection

inductive Outcome where
  | accepted (address : String) (id : Nat) (name : String)
  | rejected (address : String) (reason : Rejection)
deriving DecidableEq, Repr

structure Services (m : Type → Type) where
  fetch : Address → m (Except FetchError Metadata)
  eventId : String → m (StoreResult Nat)
  insert : Contract → m (StoreResult Nat)

namespace Onboarding

/-- What may fail at a stage. An error of the stage is a rejection. -/
def orReject (reject : ε → Rejection) : Except (Failure ε) α → Except (Failure Rejection) α
  | .ok a => .ok a
  | .error e => .error (e.map reject)

/-- The contract to look for in a source: the one of the published name, if there is a name. -/
def wanted (metadata : Metadata) : Option String :=
  if metadata.name = "" then none else some metadata.name

def resolve (metadata : Metadata) : Except (Failure Rejection) (String × Layout) := do
  let source ← orReject .source (Source.ContractSource.ofText metadata.source (wanted metadata))
  let layout ← orReject .layout (source.catalog.layout source.declarations)
  .ok (source.contract, layout)

/-- The name that a contract is kept under: the published one, or else the one in the source. -/
def displayName (metadata : Metadata) (contract : String) : String :=
  if metadata.name = "" then contract else metadata.name

section
variable {m : Type → Type} [Monad m]

def eventIds (services : Services m) : List String → m (StoreResult (List Nat))
  | [] => pure (.ok [])
  | name :: names => do
    match ← services.eventId name with
    | .error e => pure (.error e)
    | .ok id =>
      match ← eventIds services names with
      | .error e => pure (.error e)
      | .ok ids => pure (.ok (id :: ids))

def persist (services : Services m) (address : Address) (metadata : Metadata) (name : String)
    (layout : Layout) : m (StoreResult Nat) := do
  match ← eventIds services (Event.names metadata.interface) with
  | .error e => pure (.error e)
  | .ok events => services.insert ⟨address, name, metadata.interface, layout, events⟩

def accept (services : Services m) (address : Address) (metadata : Metadata) :
    m (Except (Failure Rejection) (Nat × String)) :=
  match resolve metadata with
  | .error reason => pure (.error reason)
  | .ok (contract, layout) => do
    let name := displayName metadata contract
    match ← persist services address metadata name layout with
    | .error e => pure (.error (e.map .store))
    | .ok id => pure (.ok (id, name))

def process (services : Services m) (text : String) :
    m (Except (Failure Rejection) (Nat × String)) :=
  match Address.parse? text with
  | none => pure (.error (.told (.invalidAddress text)))
  | some address => do
    match ← services.fetch address with
    | .error e => pure (.error (.told (.fetch e)))
    | .ok metadata => accept services address metadata

/-- Onboards one address. Only a panic leaves it without an outcome. -/
def onboard (services : Services m) (text : String) : ExceptT Panic m Outcome := do
  match ← ExceptT.lift (process services text) with
  | .ok (id, name) => pure (.accepted text id name)
  | .error (.told reason) => pure (.rejected text reason)
  | .error (.panic p) => throw p

def outcomes (services : Services m) : List String → ExceptT Panic m (List Outcome)
  | [] => pure []
  | text :: texts => do
    let first ← onboard services text
    let rest ← outcomes services texts
    pure (first :: rest)

end

end Onboarding

/-- The outcomes of a batch in the order of submission, and what became of handing on the accepted
contracts: their numbers, with the result. -/
structure BatchReport (α : Type) where
  outcomes : List Outcome
  backfill : Option (List Nat × α)

namespace BatchReport

variable {α : Type}

def acceptedIds (outcomes : List Outcome) : List Nat :=
  outcomes.filterMap fun
    | .accepted _ id _ => some id
    | .rejected _ _ => none

def success (r : BatchReport α) : List String :=
  r.outcomes.filterMap fun
    | .accepted address _ _ => some address
    | .rejected _ _ => none

def failures (r : BatchReport α) : List (String × Rejection) :=
  r.outcomes.filterMap fun
    | .accepted _ _ _ => none
    | .rejected address reason => some (address, reason)

/-- The rejected addresses that may be accepted later. -/
def retryable (r : BatchReport α) : List String :=
  (r.failures.filter fun f => f.2.isTransient).map Prod.fst

end BatchReport

structure Onboarder (m : Type → Type) (α : Type) where
  services : Services m
  /-- The key that a submitter must show, if there is one. -/
  key : Option String
  /-- Takes the numbers of the accepted contracts of a batch. -/
  launch : Option (List Nat → m α)

namespace Onboarder

variable {m : Type → Type} [Monad m] {α : Type}

def unauthorized : String := "unauthorized: invalid or missing credential"

def admits (o : Onboarder m α) (credential : Option String) : Bool :=
  o.key.isNone || credential = o.key

/-- Hands on the accepted contracts, if there are any and there is somebody to take them. -/
def handOn (o : Onboarder m α) (ids : List Nat) : m (Option (List Nat × α)) :=
  match o.launch with
  | none => pure none
  | some launch =>
    if ids = [] then pure none
    else do
      let result ← launch ids
      pure (some (ids, result))

def batch (o : Onboarder m α) (credential : Option String) (addresses : List String) :
    ExceptT Panic m (Option (BatchReport α)) :=
  if o.admits credential then do
    let outcomes ← Onboarding.outcomes o.services addresses
    let backfill ← o.handOn (BatchReport.acceptedIds outcomes)
    pure (some ⟨outcomes, backfill⟩)
  else pure none

structure Round (α : Type) where
  report : BatchReport α
  retried : List String

/-- Onboards addresses, and submits those again that may be accepted later, as often as a number of
retries allows. Each report is told, with the number of its round, before the next round begins. -/
def rounds (o : Onboarder m α) (credential : Option String) (tell : Nat → BatchReport α → m Unit)
    (round : Nat) : Nat → List String → ExceptT Panic m (Option (List (Round α)))
  | 0, addresses => do
    match ← o.batch credential addresses with
    | none => pure none
    | some report =>
      tell round report
      pure (some [⟨report, []⟩])
  | retries + 1, addresses => do
    match ← o.batch credential addresses with
    | none => pure none
    | some report =>
      tell round report
      if report.retryable = [] then pure (some [⟨report, []⟩])
      else
        match ← o.rounds credential tell (round + 1) retries report.retryable with
        | none => pure none
        | some more => pure (some (⟨report, report.retryable⟩ :: more))

def accepted (rounds : List (Round α)) : List String :=
  rounds.flatMap fun r => r.report.success

/-- The rejected addresses of a run with the reasons. Those submitted again after a round count in a
later one. -/
def failed (rounds : List (Round α)) : List (String × Rejection) :=
  rounds.flatMap fun r => r.report.failures.filter fun f => !r.retried.contains f.1

end Onboarder

end ContractRegistry
