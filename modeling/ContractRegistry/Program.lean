import ContractRegistry.Shell.Run

/-!
The programs that a backfill can be: a shell, and the tools beside it.

A name without a slash is looked for among the programs of the system. A name with a slash is a path.
-/
namespace ContractRegistry.Program

def directories : List String :=
  SearchPath.directories Shell.Session.programPath

def toolRun (o : Tool.Outcome) : ProcessRun where
  stdout := o.pieces.flatMap fun
    | .output bytes => bytes
    | .complaint _ => []
  stderr := o.pieces.flatMap fun
    | .output _ => []
    | .complaint text => Shell.Escape.bytesOf text
  status := .code o.status

def run (files : FileTree) (program name : String) (arguments : List String) : ProcessRun × FileTree :=
  match Tool.run? program ⟨name, arguments, [], files⟩ with
  | some o => (toolRun o, o.files)
  | none => Shell.start files name arguments

def isPassable (text : String) : Bool :=
  !text.toList.contains '\x00'

def start (files : FileTree) (name : String) (arguments : List String) :
    Except FileError (ProcessRun × FileTree) := do
  if !(name :: arguments).all isPassable then throw .nulInArgument
  if name = "" then throw .notFound
  if FileTree.partLimit ≤ name.utf8ByteSize && !name.toList.contains '/' then throw .nameTooLong
  if FileTree.pathLimit ≤ name.utf8ByteSize then throw .nameTooLong
  let (_, program) ← SearchPath.find files directories name
  .ok (run files program name arguments)

end ContractRegistry.Program
