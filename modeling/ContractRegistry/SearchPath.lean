import ContractRegistry.FileTree

/-!
Programs by name or by path.

A name without a slash is looked for in directories, one after another. A name with a slash is a path.
-/
namespace ContractRegistry.SearchPath

/-- The program of an entry. No other file may be run. -/
def program : FileEntry → Except FileError String
  | .program name => .ok name
  | _ => .error .permissionDenied

def atPath (t : FileTree) (path : String) : Except FileError String := do
  program (← t.find path)

/-- The first program of a name in directories, with its path. When there is none, a file that is no
program is worth telling. -/
def search (t : FileTree) (name : String) : FileError → List String → Except FileError (String × String)
  | e, [] => .error e
  | e, directory :: more =>
    let path := FileTree.join directory name
    match atPath t path with
    | .ok p => .ok (path, p)
    | .error .notFound => search t name e more
    | .error .notDirectory => search t name e more
    | .error other => search t name other more

def find (t : FileTree) (directories : List String) (name : String) :
    Except FileError (String × String) := do
  if name.toList.contains '/' then .ok (name, ← atPath t name)
  else search t name .notFound directories

def directories (path : String) : List String :=
  (path.toList.splitOn ':').map String.ofList

end ContractRegistry.SearchPath
