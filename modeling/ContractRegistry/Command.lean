import ContractRegistry.CommandLine.Request
import ContractRegistry.Console.Report
import ContractRegistry.Store.Snapshot

/-!
The commands of the program, over a host that keeps files, runs programs and shows text.
-/
namespace ContractRegistry

open CommandLine (LayoutRequest BatchRequest Request)
open Console (Terminal)

inductive CommandError where
  | reading (path : String) (cause : FileError)
  | source (cause : SourceError)
  | layout (cause : LayoutError)
  | loading (path : String) (cause : StoreError)
  | unauthorized
  | saving (path : String) (cause : StoreError)
deriving DecidableEq, Repr

namespace CommandError

/-- From what was tried to what went wrong. -/
def messages : CommandError → List String
  | .reading path cause => ["reading " ++ path, cause.message]
  | .source cause => [cause.message]
  | .layout cause => [cause.message]
  | .loading path cause => ["loading store " ++ path, cause.message]
  | .unauthorized => [Onboarder.unauthorized]
  | .saving path cause => ["saving store " ++ path, cause.message]

end CommandError

structure Host (m : Type → Type) where
  read : String → m (Except FileError (List UInt8))
  write : String → List UInt8 → m (Except FileError Unit)
  /-- Starts a program with arguments, which runs beside the command under a number. -/
  start : String → List String → m Nat
  /-- Waits for the end of the program under a number. -/
  await : Nat → m (Except FileError ProcessRun)
  print : List String → m Unit

namespace Command

variable {m : Type → Type} [Monad m]

def resolveLayout (r : LayoutRequest) (source : Except FileError String) :
    Except (Failure CommandError) (String × Layout) :=
  match source with
  | .error e => .error (.told (.reading r.source e))
  | .ok text =>
    match Source.ContractSource.ofText text r.contract with
    | .error e => .error (e.map .source)
    | .ok source =>
      match source.catalog.layout source.declarations with
      | .error e => .error (e.map .layout)
      | .ok layout => .ok (source.contract, layout)

def layout (host : Host m) (t : Terminal) (r : LayoutRequest) :
    m (Except (Failure CommandError) Unit) := do
  match resolveLayout r ((← host.read r.source).bind FileTree.text) with
  | .error e => pure (.error e)
  | .ok (contract, layout) =>
    host.print
      (if r.json then Console.documentLines (Console.layoutDocument contract layout)
      else t.layoutLines contract layout)
    pure (.ok ())

abbrev BackfillResult := Except BackfillError BackfillSummary

structure Dispatch where
  backfill : Backfill
  ids : List Nat
  number : Nat
deriving DecidableEq, Repr, Inhabited

def launch (host : Host m) (b : Backfill) (ids : List Nat) : StateT Store m Dispatch := do
  pure ⟨b, ids, ← host.start b.program (b.arguments ids)⟩

/-- Uses the store. A use that fails leaves it as it is. -/
def onStore (use : Store → StoreResult (α × Store)) : StateT Store m (StoreResult α) := fun s =>
  match use s with
  | .ok (a, s) => pure (.ok a, s)
  | .error e => pure (.error e, s)

def storeServices (fetch : Address → m (Except FetchError Metadata)) : Services (StateT Store m) where
  fetch address := do pure (← fetch address)
  eventId name := onStore fun s => s.eventId name
  insert contract := onStore fun s => s.insert contract

def fetchFile (host : Host m) (metadataDir : String) (address : Address) :
    m (Except FetchError Metadata) := do
  pure (Metadata.ofFile address
    ((← host.read (Metadata.path metadataDir address)).bind FileTree.text))

def services (host : Host m) (metadataDir : String) : Services (StateT Store m) :=
  storeServices (fetchFile host metadataDir)

def onboarder (host : Host m) (r : BatchRequest) : Onboarder (StateT Store m) Dispatch where
  services := services host r.metadataDir
  key := r.apiKey
  launch := r.backfillProgram.map fun program => launch host ⟨program, r.backfillArgs⟩

def load (host : Host m) : Option String → m (Except CommandError Store)
  | none => pure (.ok .empty)
  | some path => do
    match Snapshot.ofFile (← host.read path) with
    | .ok s => pure (.ok s)
    | .error e => pure (.error (.loading path e))

def save (host : Host m) (t : Terminal) (r : BatchRequest) (s : Store) :
    m (Except CommandError Unit) :=
  match r.store with
  | none => pure (.ok ())
  | some path => do
    match Snapshot.written (← host.write path (Snapshot.toFile s)) with
    | .error e => pure (.error (.saving path e))
    | .ok () =>
      if !r.json then host.print [t.savedLine path s.contracts.length]
      pure (.ok ())

def showRound (host : Host m) (t : Terminal) (r : BatchRequest) (round : Nat)
    (report : BatchReport Dispatch) : StateT Store m Unit := do
  if !r.json then host.print (t.roundLines round report)

def showTotals (host : Host m) (t : Terminal) (r : BatchRequest)
    (rounds : List (Onboarder.Round Dispatch)) : m Unit :=
  let accepted := Onboarder.accepted rounds
  let failed := Onboarder.failed rounds
  host.print
    (if r.json then Console.documentLines (Console.runDocument accepted failed)
    else t.totalLines accepted.length failed.length)

def awaitAll (host : Host m) : List Dispatch → m (List BackfillResult)
  | [] => pure []
  | d :: ds => do
    let run ← host.await d.number
    let results ← awaitAll host ds
    pure (d.backfill.result d.ids run :: results)

def showBackfills (host : Host m) (t : Terminal) (r : BatchRequest)
    (rounds : List (Onboarder.Round Dispatch)) : m Unit := do
  let results ← awaitAll host (rounds.filterMap fun round => round.report.backfill.map Prod.snd)
  if !r.json then host.print (t.backfillLines results)

def rounds (host : Host m) (t : Terminal) (r : BatchRequest) (s : Store) :
    m (Except Panic (Option (List (Onboarder.Round Dispatch))) × Store) :=
  ((onboarder host r).rounds r.credential (showRound host t r) 0 r.retries r.addresses).run.run s

/-- Onboards addresses in rounds, keeps the store, and waits for the backfills. A panic in a round
leaves the store unsaved and the backfills alone. -/
def batch (host : Host m) (t : Terminal) (r : BatchRequest) :
    m (Except (Failure CommandError) Unit) := do
  match ← load host r.store with
  | .error e => pure (.error (.told e))
  | .ok s =>
    match ← rounds host t r s with
    | (.error p, _) => pure (.error (.panic p))
    | (.ok none, _) => pure (.error (.told .unauthorized))
    | (.ok (some rounds), s) =>
      showTotals host t r rounds
      match ← save host t r s with
      | .error e => pure (.error (.told e))
      | .ok () =>
        showBackfills host t r rounds
        pure (.ok ())

def run (host : Host m) (t : Terminal) : Request → m (Except (Failure CommandError) Unit)
  | .layout r => layout host t r
  | .batch r => batch host t r

end Command

end ContractRegistry
