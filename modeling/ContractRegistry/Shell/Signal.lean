import ContractRegistry.Backfill
import ContractRegistry.Shell.Integer

/-!
Signals by their numbers and names.
-/
namespace ContractRegistry.Shell.Signal

def count : Nat := 65

def shortName (name : String) : String :=
  String.ofList (name.toList.drop 3)

def middleName (n : Nat) : String :=
  if n = 34 then "RTMIN"
  else if n = 64 then "RTMAX"
  else if 34 < n && n < 50 then "RTMIN+" ++ toString (n - 34)
  else if 49 < n && n < 64 then "RTMAX-" ++ toString (64 - n)
  else toString n

/-- The name of a signal. Signal zero stands for the end of a shell. -/
def name (n : Nat) : String :=
  if n = 0 then "EXIT"
  else if n = 16 then "16"
  else
    match ExitStatus.signalNames[n - 1]? with
    | some name => shortName name
    | none => middleName n

def ofText? (text : String) : Option Nat :=
  match Integer.count? text with
  | some n => if n < count then some n else none
  | none => (List.range count).find? fun n => (name n).toList = text.toList.map Char.toUpper

def descriptions : List String :=
  ["Hangup", "", "Quit", "Illegal instruction", "Trace/breakpoint trap", "Aborted", "Bus error",
    "Floating point exception", "Killed", "User defined signal 1", "Segmentation fault",
    "User defined signal 2", "", "Alarm clock", "Terminated", "Stack fault", "", "", "", "", "", "", "",
    "CPU time limit exceeded", "File size limit exceeded", "Virtual timer expired",
    "Profiling timer expired", "", "I/O possible", "Power failure", "Bad system call"]

def notice (n : Nat) : String :=
  match descriptions.getD (n - 1) "" with
  | "" => ""
  | text => text ++ "\n"

def harmless : List Nat := [0, 17, 18, 19, 20, 21, 22, 23, 28]

def uncatchable : List Nat := [9, 19]

end ContractRegistry.Shell.Signal
