import ContractRegistry.Command
import ContractRegistry.Program

/-!
The program: arguments, files and the terminal are those of the system.
-/
namespace ContractRegistry.Main

open CommandLine (UsageError Invocation)

def fileError : IO.Error → FileError
  | .noFileOrDirectory _ _ _ => .notFound
  | .permissionDenied _ _ _ => .permissionDenied
  | .inappropriateType _ _ _ => .isDirectory
  | .invalidArgument _ _ _ => .nulInName
  | _ => .notDirectory

def attempt (action : IO α) : IO (Except FileError α) := do
  match ← action.toBaseIO with
  | .ok a => pure (.ok a)
  | .error e => pure (.error (fileError e))

def logLine (json : Bool) (stream line : String) : String :=
  if json then (Json.Value.object [("stream", .string stream), ("message", .string line)]).compact
  else "backfill " ++ stream ++ ": " ++ line

def log (json : Bool) (run : ProcessRun) : IO Unit := do
  for line in Backfill.forwarded run.stdout do IO.eprintln (logLine json "stdout" line)
  for line in Backfill.forwarded run.stderr do IO.eprintln (logLine json "stderr" line)

abbrev Started := IO.Ref (List (Except FileError ProcessRun))

def startProgram (json : Bool) (started : Started) (program : String) (arguments : List String) :
    IO Nat := do
  let run := (Program.start .empty program arguments).map Prod.fst
  if let .ok run := run then log json run
  let earlier ← started.get
  started.set (earlier ++ [run])
  pure earlier.length

def awaitProgram (started : Started) (number : Nat) : IO (Except FileError ProcessRun) := do
  pure ((← started.get)[number]?.getD (.error .notFound))

def host (json : Bool) (started : Started) : Host IO where
  read path := attempt do pure (← IO.FS.readBinFile path).toList
  write path bytes := attempt (IO.FS.writeBinFile path ⟨bytes.toArray⟩)
  start := startProgram json started
  await := awaitProgram started
  print lines := IO.print (Console.unlines lines)

def variableNames : List String := ["BACKFILL_BIN", "ONBOARD_API_KEY", "ONBOARD_CREDENTIAL"]

def environment : IO (List (String × String)) := do
  let found ← variableNames.mapM fun name => do pure (name, ← IO.getEnv name)
  pure (found.filterMap fun (name, value) => value.map fun text => (name, text))

def refuse (e : UsageError) : IO UInt32 := do
  if e.exitCode = 0 then IO.println e.message else IO.eprintln e.message
  pure e.exitCode.toUInt32

def panicCode : UInt32 := 101

def perform (i : Invocation) : IO UInt32 := do
  let color := (← (← IO.getStdout).isTty) && (← IO.getEnv "NO_COLOR").isNone
  let started ← IO.mkRef []
  match ← Command.run (host i.logJson started) ⟨color⟩ i.request with
  | .ok () => pure 0
  | .error (.told e) =>
    IO.eprintln ("Error: " ++ ": ".intercalate e.messages)
    pure 1
  | .error (.panic _) => pure panicCode

end ContractRegistry.Main

open ContractRegistry in
def main (arguments : List String) : IO UInt32 := do
  let environment ← Main.environment
  match CommandLine.Invocation.ofArguments (fun name => environment.lookup name) arguments with
  | .ok i => Main.perform i
  | .error e => Main.refuse e
