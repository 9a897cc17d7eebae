import ContractRegistry.FileTree
import ContractRegistry.Text.Blank

/-!
Backfill: a program that is run for newly stored contracts.

It gets fixed arguments and then the numbers of the contracts. What it writes is forwarded line by
line; how it ends decides the result, and nothing else does.
-/
namespace ContractRegistry

inductive ExitStatus where
  | code (n : Nat)
  | signal (n : Nat)
deriving DecidableEq, Repr, Inhabited

namespace ExitStatus

def signalNames : List String :=
  ["SIGHUP", "SIGINT", "SIGQUIT", "SIGILL", "SIGTRAP", "SIGABRT", "SIGBUS", "SIGFPE", "SIGKILL",
    "SIGUSR1", "SIGSEGV", "SIGUSR2", "SIGPIPE", "SIGALRM", "SIGTERM", "SIGSTKFLT", "SIGCHLD",
    "SIGCONT", "SIGSTOP", "SIGTSTP", "SIGTTIN", "SIGTTOU", "SIGURG", "SIGXCPU", "SIGXFSZ",
    "SIGVTALRM", "SIGPROF", "SIGWINCH", "SIGIO", "SIGPWR", "SIGSYS"]

def signalSuffix (n : Nat) : String :=
  match n with
  | 0 => ""
  | n + 1 =>
    match signalNames[n]? with
    | some name => " (" ++ name ++ ")"
    | none => ""

def text : ExitStatus → String
  | .code n => "exit status: " ++ toString n
  | .signal n => "signal: " ++ toString n ++ signalSuffix n

def isSuccess (s : ExitStatus) : Bool :=
  s = .code 0

def code? : ExitStatus → Option Nat
  | .code n => some n
  | .signal _ => none

end ExitStatus

structure ProcessRun where
  stdout : List UInt8
  stderr : List UInt8
  status : ExitStatus
deriving DecidableEq, Repr, Inhabited

structure Backfill where
  program : String
  fixed : List String
deriving DecidableEq, Repr, Inhabited

inductive BackfillError where
  | notStarted (program : String) (reason : String)
  | failed (status : ExitStatus)
deriving DecidableEq, Repr

def BackfillError.message : BackfillError → String
  | .notStarted program reason => "failed to start " ++ program ++ ": " ++ reason
  | .failed status => "backfill exited with " ++ status.text

structure BackfillSummary where
  ids : List Nat
  stdoutLines : Nat
  stderrLines : Nat
deriving DecidableEq, Repr

namespace Backfill

/-- The arguments for a run. -/
def arguments (b : Backfill) (ids : List Nat) : List String :=
  b.fixed ++ ids.map toString

def lineFeed : UInt8 := 10

/-- Cuts behind each line feed. What follows the last one is a line too, unless it is empty. -/
def lines : List UInt8 → List (List UInt8)
  | [] => []
  | b :: bs =>
    if b = lineFeed then [b] :: lines bs
    else
      match lines bs with
      | [] => [[b]]
      | first :: rest => (b :: first) :: rest

def isLineEnd (c : Char) : Bool :=
  c = '\n' || c = '\r'

def lineText (line : List UInt8) : String :=
  String.ofList (Text.dropEndWhile isLineEnd (Text.Utf8.decodeLossy line))

def forwarded (stream : List UInt8) : List String :=
  (lines stream).map lineText

def result (b : Backfill) (ids : List Nat) : Except FileError ProcessRun →
    Except BackfillError BackfillSummary
  | .error e => .error (.notStarted b.program e.message)
  | .ok run =>
    if run.status.isSuccess then
      .ok ⟨ids, (forwarded run.stdout).length, (forwarded run.stderr).length⟩
    else .error (.failed run.status)

end Backfill

end ContractRegistry
