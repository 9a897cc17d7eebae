import ContractRegistry.Backfill
import ContractRegistry.Shell.Escape

/-!
Small programs: what they are given and what they leave.

A tool reads all of its input at once, or the files that it is given, and writes to two streams in order.
-/
namespace ContractRegistry.Tool

open Shell.Escape (bytesOf)

structure Task where
  /-- The name by which the tool is called. -/
  name : String
  arguments : List String
  input : List UInt8
  files : FileTree
deriving DecidableEq, Repr, Inhabited

inductive Piece where
  | output (bytes : List UInt8)
  | complaint (text : String)
deriving DecidableEq, Repr, Inhabited

structure Outcome where
  pieces : List Piece
  status : Nat
  /-- How many bytes of the input were read. -/
  taken : Nat
  files : FileTree
deriving DecidableEq, Repr, Inhabited

namespace Task

def leave (t : Task) (pieces : List Piece) (status : Nat) : Outcome :=
  ⟨pieces, status, 0, t.files⟩

def give (t : Task) (bytes : List UInt8) : Outcome :=
  t.leave [.output bytes] 0

def complaint (t : Task) (text : String) : Piece :=
  .complaint (t.name ++ ": " ++ text ++ "\n")

def refuse (t : Task) (text : String) (status : Nat) : Outcome :=
  t.leave [t.complaint text] status

def misuse (t : Task) (text : String) : Outcome :=
  t.leave [t.complaint text,
    .complaint ("Try '" ++ t.name ++ " --help' for more information.\n")] 1

end Task

def quoted (text : String) : String :=
  "'" ++ text ++ "'"

def linesOf (lines : List String) : List UInt8 :=
  lines.flatMap fun line => bytesOf (line ++ "\n")

def withoutBreak (line : List UInt8) : List UInt8 :=
  line.filter fun b => b ≠ Backfill.lineFeed

structure Reading where
  bytes : List UInt8
  complaints : List String
  usedInput : Bool
deriving DecidableEq, Repr, Inhabited

namespace Task

def read (t : Task) (path : String) : Except FileError (List UInt8) :=
  if path = "-" then .ok t.input else t.files.read path

def readAll (t : Task) (paths : List String) : Reading :=
  let paths := if paths = [] then ["-"] else paths
  paths.foldl (fun r path =>
    match t.read path with
    | .ok bytes =>
      let bytes := if path = "-" && r.usedInput then [] else bytes
      { r with bytes := r.bytes ++ bytes, usedInput := r.usedInput || path = "-" }
    | .error e => { r with complaints := r.complaints ++ [path ++ ": " ++ e.reason] })
    ⟨[], [], false⟩

def through (t : Task) (paths : List String) (change : List UInt8 → List UInt8) : Outcome :=
  let r := t.readAll paths
  { pieces := .output (change r.bytes) :: r.complaints.map t.complaint
    status := if r.complaints = [] then 0 else 1
    taken := if r.usedInput then t.input.length else 0
    files := t.files }

/-- Splits letters of options from the other arguments. Two hyphens end the options. -/
def options (arguments : List String) : List Char × List String :=
  match arguments with
  | [] => ([], [])
  | a :: rest =>
    match a.toList with
    | ['-'] => ([], a :: rest)
    | ['-', '-'] => ([], rest)
    | '-' :: letters =>
      let (more, rest) := options rest
      (letters ++ more, rest)
    | _ => ([], a :: rest)

/-- Goes on with the options and the other arguments, unless there is an option that is not known. -/
def withOptions (t : Task) (known : List Char) (run : List Char → List String → Outcome) : Outcome :=
  let (letters, rest) := options t.arguments
  match letters.find? fun c => !known.contains c with
  | some c => t.misuse ("invalid option -- " ++ quoted (String.singleton c))
  | none => run letters rest

end Task

end ContractRegistry.Tool
