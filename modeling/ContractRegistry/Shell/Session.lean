import ContractRegistry.Backfill
import ContractRegistry.Shell.Escape
import ContractRegistry.Shell.Script

/-!
A running shell: its variables, its streams, and how it goes on.

Every stream has a number and leads to a channel. Channels and files are shared with the shells that a
shell starts; all else is copied for them.
-/
namespace ContractRegistry.Shell

inductive Channel where
  /-- Nothing comes from here, and what goes here is lost. -/
  | sink
  /-- There is no room here. -/
  | full
  | source (bytes : List UInt8)
  /-- What was written, with the last part first. -/
  | collected (parts : List (List UInt8))
  /-- A file, and where its next byte is. What is appended goes to the end. -/
  | file (place : FilePlace) (position : Nat) (appended : Bool)
deriving DecidableEq, Repr, Inhabited

inductive Flow where
  | going
  | exited
  /-- Ended by an error. -/
  | failed
  /-- Out of this many loops, of which the last may go on with its next turn. -/
  | leaving (loops : Nat) (again : Bool)
  /-- Out of a function. -/
  | returning
  | killed (signal : Nat)
deriving DecidableEq, Repr, Inhabited

/-- A variable. One without a value may have marks nevertheless. -/
structure Variable where
  value : Option String
  exported : Bool
  fixed : Bool
deriving DecidableEq, Repr, Inhabited

/-- A process beside the shell. What it writes to channels is seen when the shell waits. -/
structure Job where
  status : Nat
  written : List (Nat × List (List UInt8))
  /-- The signal that has ended it. -/
  signal : Option Nat
  awaited : Bool
deriving DecidableEq, Repr, Inhabited

structure Session where
  name : String
  arguments : List String
  assigned : List (String × Variable)
  routines : List (String × Command)
  /-- The variables that functions get back when they end, those of the last function first. -/
  locals : List (List (String × Option Variable))
  options : List Char
  line : Nat
  /-- The command that messages are about. -/
  command : Option String
  /-- How many loops the commands are in. -/
  loops : Nat
  /-- How many functions the commands are in. -/
  depth : Nat
  status : Nat
  /-- The status of the last script whose output was asked for. -/
  innerStatus : Nat
  streams : List (Nat × Nat)
  channels : List (Nat × Channel)
  files : FileTree
  /-- What is done on signals, and at the end for signal zero. -/
  traps : List (Nat × String)
  pending : List Nat
  /-- What runs beside the shell, by the number of the process. -/
  jobs : List (Nat × Job)
  lastJob : Option Nat
  /-- How many characters of an argument `getopts` has taken. -/
  optionOffset : Nat
  flow : Flow
deriving Repr, Inhabited

namespace Session

def depthLimit : Nat := 1000

def processId : Nat := 100

def programPath : String :=
  "/usr/local/sbin:/usr/local/bin:/usr/sbin:/usr/bin:/sbin:/bin"

def initialVariables (files : FileTree) : List (String × Variable) :=
  [("HOME", ⟨some "/root", true, false⟩), ("PATH", ⟨some programPath, true, false⟩),
    ("PWD", ⟨some ("/" ++ "/".intercalate files.directory.reverse), true, false⟩),
    ("IFS", ⟨some " \t\n", false, false⟩), ("OPTIND", ⟨some "1", false, false⟩),
    ("PPID", ⟨some "1", false, false⟩), ("PS1", ⟨some "# ", false, false⟩),
    ("PS2", ⟨some "> ", false, false⟩), ("PS4", ⟨some "+ ", false, false⟩)]

def start (files : FileTree) (name : String) (arguments : List String) : Session where
  name := name
  arguments := arguments
  assigned := initialVariables files
  routines := []
  locals := []
  options := []
  line := 1
  command := none
  loops := 0
  depth := 0
  status := 0
  innerStatus := 0
  streams := [(0, 0), (1, 1), (2, 2)]
  channels := [(2, .collected []), (1, .collected []), (0, .sink)]
  files := files
  traps := []
  pending := []
  jobs := []
  lastJob := none
  optionOffset := 0
  flow := .going

def channel? (s : Session) (stream : Nat) : Option (Nat × Channel) := do
  let id ← s.streams.lookup stream
  some (id, ← s.channels.lookup id)

def setChannel (s : Session) (id : Nat) (c : Channel) : Session :=
  { s with channels := s.channels.map fun (other, old) => (other, if other = id then c else old) }

def openChannel (s : Session) (stream : Nat) (c : Channel) : Session :=
  let id := (s.channels.head?.map fun first => first.1 + 1).getD 0
  { s with
    channels := (id, c) :: s.channels
    streams := (stream, id) :: s.streams.filter fun other => other.1 ≠ stream }

def closeStream (s : Session) (stream : Nat) : Session :=
  { s with streams := s.streams.filter fun other => other.1 ≠ stream }

def copyStream (s : Session) (stream id : Nat) : Session :=
  { s with streams := (stream, id) :: s.streams.filter fun other => other.1 ≠ stream }

/-- Gives some streams their ways back, and forgets the channels that nothing leads to any more. -/
def withStreams (s before : Session) (changed : List Nat) : Session :=
  let mark := (before.channels.head?.map Prod.fst).getD 0
  let streams := before.streams.filter (fun other => changed.contains other.1) ++
    s.streams.filter fun other => !changed.contains other.1
  { s with
    streams
    channels := s.channels.filter fun c => c.1 ≤ mark || streams.any fun other => other.2 = c.1 }

def bytesAt (files : FileTree) (place : FilePlace) : List UInt8 :=
  match files.entry? place with
  | some e => e.bytes.toOption.getD []
  | none => []

def write? (s : Session) (stream : Nat) (bytes : List UInt8) : Option Session :=
  match s.channel? stream with
  | none => none
  | some (_, .source _) => none
  | some (_, .full) => if bytes = [] then some s else none
  | some (_, .sink) => some s
  | some (id, .collected parts) => some (s.setChannel id (.collected (bytes :: parts)))
  | some (id, .file place position appended) =>
    let old := bytesAt s.files place
    let position := if appended then old.length else position
    let new := old.take position ++ List.replicate (position - old.length) 0 ++ bytes ++
      old.drop (position + bytes.length)
    let s := s.setChannel id (.file place (position + bytes.length) appended)
    some { s with files := s.files.put place (.file new) }

def settle (s : Session) (job : Job) : Session :=
  { s with channels := s.channels.map fun (id, c) =>
      match c, job.written.lookup id with
      | .collected parts, some more => (id, .collected (more ++ parts))
      | c, _ => (id, c) }

def settleAll (s : Session) : Session :=
  { s.jobs.reverse.foldl (fun s job => s.settle job.2) s with
    jobs := s.jobs.map fun (number, job) => (number, { job with written := [] }) }

def tell (s : Session) (text : String) : Session :=
  (s.write? 2 (Escape.bytesOf text)).getD s

def input (s : Session) (stream : Nat) : List UInt8 :=
  match s.channel? stream with
  | some (_, .source bytes) => bytes
  | some (_, .file place position _) => (bytesAt s.files place).drop position
  | _ => []

def consume (s : Session) (stream count : Nat) : Session :=
  match s.channel? stream with
  | some (id, .source bytes) => s.setChannel id (.source (bytes.drop count))
  | some (id, .file place position appended) =>
    s.setChannel id (.file place (position + count) appended)
  | _ => s

def collected (s : Session) (id : Nat) : List UInt8 :=
  match s.channels.lookup id with
  | some (.collected parts) => parts.reverse.flatten
  | _ => []

def ended (s : Session) (status : Nat) : Session := { s with status }

def warn (s : Session) (text : String) : Session :=
  let about := match s.command with
    | some command => command ++ ": "
    | none => ""
  s.tell (s.name ++ ": " ++ toString s.line ++ ": " ++ about ++ text ++ "\n")

def fail (s : Session) (text : String) (status : Nat) : Session :=
  (s.warn text).ended status

def abort (s : Session) (text : String) (status : Nat) : Session :=
  { s.fail text status with flow := .failed }

def about (s : Session) (command : String) (run : Session → Session) : Session :=
  { run { s with command := some command } with command := s.command }

def print (s : Session) (bytes : List UInt8) : Session :=
  match s.write? 1 bytes with
  | some s => s.ended 0
  | none => s.fail ((s.command.getD "") ++ ": I/O error") 1

def next (s : Session) (run : Session → Session) : Session :=
  if s.flow = .going then run s else s

def orEnd (s : Session) (a : List α) (run : Session → Session) : List α × Session :=
  if s.flow = .going then (a, run s) else ([], s)

/-- What a shell leaves to the one that started it: files, channels, and the end by a signal. -/
def afterInner (s inner : Session) : Session :=
  { s with
    channels := inner.channels
    files := { inner.files with directory := s.files.directory }
    status := match inner.flow with
      | .killed _ => inner.status
      | _ => inner.status % 256
    flow := match inner.flow with
      | .killed signal => .killed signal
      | _ => s.flow }

def finished (s : Session) : ProcessRun where
  stdout := s.collected 1
  stderr := s.collected 2
  status := match s.flow with
    | .killed signal => .signal signal
    | _ => .code (s.status % 256)

def value? (s : Session) (name : String) : Option String :=
  (s.assigned.lookup name).bind Variable.value

def value (s : Session) (name : String) : String :=
  (s.value? name).getD ""

def setVariable (s : Session) (name : String) (v : Option Variable) : Session :=
  let others := s.assigned.filter fun other => other.1 ≠ name
  { s with assigned := match v with
      | some v => (name, v) :: others
      | none => others }

def isFixed (s : Session) (name : String) : Bool :=
  ((s.assigned.lookup name).map Variable.fixed).getD false

def put (s : Session) (name value : String) : Session :=
  let v : Variable := ((s.assigned.lookup name).getD ⟨none, false, false⟩)
  let exported := v.exported || s.options.contains 'a'
  let s := s.setVariable name (some { v with value := some value, exported })
  if name = "OPTIND" then { s with optionOffset := 0 } else s

def assign (s : Session) (name value : String) : Session :=
  if s.isFixed name then s.abort (name ++ ": is read only") 2 else s.put name value

def keep (s : Session) (name : String) : Session :=
  match s.locals with
  | [] => s
  | frame :: outer =>
    if (frame.lookup name).isSome then s
    else { s with locals := ((name, s.assigned.lookup name) :: frame) :: outer }

def pushLocals (s : Session) : Session := { s with locals := [] :: s.locals }

def popLocals (s : Session) : Session :=
  match s.locals with
  | [] => s
  | frame :: outer =>
    { frame.foldl (fun s (name, v) => s.setVariable name v) s with locals := outer }

def isSet (s : Session) (letter : Char) : Bool :=
  s.options.contains letter

def environment (s : Session) : List (String × String) :=
  (s.assigned.filterMap fun (name, v) =>
    if v.exported then v.value.map fun text => (name, text) else none)

end Session

end ContractRegistry.Shell
