import ContractRegistry.Tool.Outcome

/-!
Tools that make, show and take away files.

Each one goes through its arguments, and complains about those for which it can do nothing.
-/
namespace ContractRegistry.Tool

open Shell.Escape (bytesOf)

def forEach (t : Task) (paths : List String)
    (change : FileTree → String → Except String FileTree) : Outcome :=
  let (files, complaints) := paths.foldl (fun (files, complaints) path =>
    match change files path with
    | .ok files => (files, complaints)
    | .error text => (files, complaints ++ [t.complaint text])) (t.files, ([] : List Piece))
  ⟨complaints, if complaints = [] then 0 else 1, 0, files⟩

def failure (deed path : String) (e : FileError) : String :=
  deed ++ " " ++ quoted path ++ ": " ++ e.reason

def orFailure (deed path : String) (r : Except FileError α) : Except String α :=
  match r with
  | .ok a => .ok a
  | .error e => .error (failure deed path e)

def newPlace (files : FileTree) (path : String) : Except FileError FilePlace := do
  let (parent, name, _) ← files.split path
  let place ← files.follow parent name
  if (files.entry? place).isSome then .error .alreadyThere else .ok place

def makeDirectory (files : FileTree) (path : String) : Except FileError FileTree := do
  .ok (files.put (← newPlace files path) .directory)

def makeDirectories (files : FileTree) (path : String) : Except FileError FileTree := do
  let (files, _) ← (FileTree.parts path).foldlM (fun (files, place) part => do
    let place ← files.follow place part
    match files.entry? place with
    | none => .ok (files.put place .directory, place)
    | some .directory => .ok (files, place)
    | some _ => .error .alreadyThere) (files, files.origin path)
  .ok files

def mkdir (t : Task) : Outcome :=
  t.withOptions ['p'] fun letters paths =>
    if paths = [] then t.misuse "missing operand"
    else
      forEach t paths fun files path =>
        orFailure "cannot create directory" path
          (if letters.contains 'p' then makeDirectories files path else makeDirectory files path)

def removeDirectory (files : FileTree) (path : String) : Except FileError FileTree := do
  let place ← files.locate path
  match files.entry? place with
  | none => .error .notFound
  | some .directory => if files.names place = [] then .ok (files.erase place) else .error .notEmpty
  | some _ => .error .notDirectory

def rmdir (t : Task) : Outcome :=
  t.withOptions [] fun _ paths =>
    if paths = [] then t.misuse "missing operand"
    else forEach t paths fun files path => orFailure "failed to remove" path (removeDirectory files path)

def eraseAll (files : FileTree) (place : FilePlace) : FileTree :=
  { files with entries := files.entries.filter fun other => !place.isSuffixOf other.1 }

def removeFile (deep forced : Bool) (files : FileTree) (path : String) : Except String FileTree :=
  let deed := "cannot remove"
  match files.locate path with
  | .error e => if forced then .ok files else .error (failure deed path e)
  | .ok place =>
    match files.entry? place with
    | none => if forced then .ok files else .error (failure deed path .notFound)
    | some .directory =>
      if deep then .ok (eraseAll files place) else .error (failure deed path .isDirectory)
    | some _ => .ok (files.erase place)

def rm (t : Task) : Outcome :=
  t.withOptions ['f', 'r', 'R'] fun letters paths =>
    let deep := letters.contains 'r' || letters.contains 'R'
    if paths = [] && !letters.contains 'f' then t.misuse "missing operand"
    else forEach t paths (removeFile deep (letters.contains 'f'))

def touch (t : Task) : Outcome :=
  t.withOptions ['c'] fun letters paths =>
    if paths = [] then t.misuse "missing file operand"
    else
      forEach t paths fun files path =>
        orFailure "cannot touch" path
          (match files.find path with
          | .ok _ => .ok files
          | .error .notFound => if letters.contains 'c' then .ok files else files.write path []
          | .error e => .error e)

def ordered (names : List String) : List String :=
  names.mergeSort fun a b => decide (a ≤ b)

def ls (t : Task) : Outcome :=
  t.withOptions ['1', 'a', 'A', 'd'] fun letters paths =>
    let shown (place : FilePlace) : List String :=
      let dots := if letters.contains 'a' then [".", ".."] else []
      let all := letters.contains 'a' || letters.contains 'A'
      dots ++ ordered ((t.files.names place).filter fun name => all || name.toList.head? ≠ some '.')
    let paths := ordered (if paths = [] then ["."] else paths)
    let isThere (path : String) : Bool := (t.files.find path).isOk
    let isOpened (path : String) : Bool :=
      (t.files.find path).toOption = some .directory && !letters.contains 'd'
    let single := paths.filter fun path => isThere path && !isOpened path
    let opened := paths.filter isOpened
    let titled := 1 < paths.length
    let complaints := paths.filterMap fun path =>
      match t.files.find path with
      | .ok _ => none
      | .error e => some (t.complaint (failure "cannot access" path e))
    let sections := (opened.zipIdx).flatMap fun (path, i) =>
      let title := if titled then
          (if i = 0 && single = [] then [] else [""]) ++ [path ++ ":"]
        else []
      title ++ shown ((t.files.locate path).toOption.getD [])
    t.leave (complaints ++ [.output (linesOf (single ++ sections))]) (if complaints = [] then 0 else 2)

def tee (t : Task) : Outcome :=
  t.withOptions ['a'] fun letters paths =>
    let o := forEach t paths fun files path =>
      let old := if letters.contains 'a' then (files.read path).toOption.getD [] else []
      match files.write path (old ++ t.input) with
      | .ok files => .ok files
      | .error e => .error (path ++ ": " ++ e.reason)
    { o with pieces := o.pieces ++ [.output t.input], taken := t.input.length }

end ContractRegistry.Tool
