import ContractRegistry.Text.Blank
import ContractRegistry.Text.Utf8

/-!
Files by their places, and a working directory.

A path is followed part by part, and every part but the last must be a directory. Beside the working
directory, which is empty to begin with, there are the directories of a usual system and the programs
in them.
-/
namespace ContractRegistry

inductive FileError where
  | notFound
  | permissionDenied
  | alreadyThere
  | notDirectory
  | isDirectory
  | notEmpty
  | noSpace
  | nameTooLong
  | nulInName
  | nulInArgument
  | notText
deriving DecidableEq, Repr, Inhabited

namespace FileError

def reason : FileError → String
  | .notFound => "No such file or directory"
  | .permissionDenied => "Permission denied"
  | .alreadyThere => "File exists"
  | .notDirectory => "Not a directory"
  | .isDirectory => "Is a directory"
  | .notEmpty => "Directory not empty"
  | .noSpace => "No space left on device"
  | .nameTooLong => "File name too long"
  | .nulInName => "file name contained an unexpected NUL byte"
  | .nulInArgument => "nul byte found in provided data"
  | .notText => "stream did not contain valid UTF-8"

def number? : FileError → Option Nat
  | .notFound => some 2
  | .permissionDenied => some 13
  | .alreadyThere => some 17
  | .notDirectory => some 20
  | .isDirectory => some 21
  | .notEmpty => some 39
  | .noSpace => some 28
  | .nameTooLong => some 36
  | _ => none

def message (e : FileError) : String :=
  match e.number? with
  | some n => e.reason ++ " (os error " ++ toString n ++ ")"
  | none => e.reason

end FileError

abbrev FilePlace := List String

inductive FileEntry where
  | file (bytes : List UInt8)
  | directory
  /-- Has nothing in it, whatever is written. -/
  | sink
  /-- Has no room for anything. -/
  | full
  | program (name : String)
  /-- Another name for a place. -/
  | link (place : FilePlace)
deriving DecidableEq, Repr, Inhabited

def FileEntry.programBytes : List UInt8 := [0x7f, 0x45, 0x4c, 0x46, 0x02, 0x01, 0x01, 0x00, 0xff]

def FileEntry.bytes : FileEntry → Except FileError (List UInt8)
  | .file bytes => .ok bytes
  | .directory => .error .isDirectory
  | .sink => .ok []
  | .full => .ok []
  | .program _ => .ok programBytes
  | .link _ => .error .notFound

structure FileTree where
  entries : List (FilePlace × FileEntry)
  directory : FilePlace
deriving DecidableEq, Repr, Inhabited

namespace FileTree

def parts (path : String) : List String :=
  (path.toList.splitOn '/').map String.ofList

def placeOf (path : String) : FilePlace :=
  ((parts path).filter fun part => part ≠ "").reverse

def initialDirectory : FilePlace := placeOf "/tmp/work"

def systemDirectories : List String :=
  ["/boot", "/dev", "/etc", "/home", "/media", "/mnt", "/opt", "/proc", "/root", "/run", "/srv",
    "/sys", "/tmp", "/tmp/work", "/usr", "/usr/bin", "/usr/lib", "/usr/lib64", "/usr/local",
    "/usr/local/bin", "/usr/local/lib", "/usr/local/sbin", "/usr/sbin", "/usr/share", "/var",
    "/var/lib", "/var/log", "/var/tmp"]

def systemLinks : List String := ["bin", "lib", "lib64", "sbin"]

def systemPrograms : List String :=
  ["[", "basename", "cat", "dirname", "echo", "false", "head", "ls", "mkdir", "printf", "pwd", "rev",
    "rm", "rmdir", "seq", "sh", "sleep", "sort", "tail", "tee", "test", "touch", "tr", "true", "uniq",
    "wc"]

def systemFiles : List (String × String) :=
  [("/etc/group", "root:x:0:"), ("/etc/hostname", "localhost"), ("/etc/hosts", "127.0.0.1 localhost"),
    ("/etc/os-release", "ID=linux"), ("/etc/passwd", "root:x:0:0:root:/root:/bin/sh")]

def empty : FileTree where
  entries :=
    systemDirectories.map (fun path => (placeOf path, .directory)) ++
    systemLinks.map (fun name => ([name], .link [name, "usr"])) ++
    systemPrograms.map (fun name => ([name, "bin", "usr"], .program name)) ++
    systemFiles.map (fun (path, line) =>
      (placeOf path, .file (Text.Utf8.encode (line ++ "\n").toList))) ++
    [(["null", "dev"], .sink), (["full", "dev"], .full)]
  directory := initialDirectory

def entry? (t : FileTree) : FilePlace → Option FileEntry
  | [] => some .directory
  | place => t.entries.lookup place

def resolved (t : FileTree) (place : FilePlace) : FilePlace :=
  match t.entry? place with
  | some (.link target) => target
  | _ => place

def partLimit : Nat := 256

def pathLimit : Nat := 4096

/-- Follows one part of a path. The directory above the root is the root. -/
def follow (t : FileTree) (place : FilePlace) (part : String) : Except FileError FilePlace :=
  match t.entry? place with
  | none => .error .notFound
  | some .directory =>
    if part = "" ∨ part = "." then .ok place
    else if part = ".." then .ok place.tail
    else if partLimit ≤ part.utf8ByteSize then .error .nameTooLong
    else .ok (t.resolved (part :: place))
  | some _ => .error .notDirectory

def origin (t : FileTree) (path : String) : FilePlace :=
  if path.toList.head? = some '/' then [] else t.directory

def checkPath (path : String) : Except FileError Unit :=
  if path.toList.contains '\x00' then .error .nulInName
  else if pathLimit ≤ path.utf8ByteSize then .error .nameTooLong
  else if path = "" then .error .notFound
  else .ok ()

def locate (t : FileTree) (path : String) : Except FileError FilePlace := do
  checkPath path
  (parts path).foldlM t.follow (t.origin path)

def find (t : FileTree) (path : String) : Except FileError FileEntry := do
  match t.entry? (← t.locate path) with
  | none => .error .notFound
  | some e => .ok e

def read (t : FileTree) (path : String) : Except FileError (List UInt8) := do
  (← t.find path).bytes

def text (bytes : List UInt8) : Except FileError String :=
  match Text.Utf8.decode? bytes with
  | some cs => .ok (String.ofList cs)
  | none => .error .notText

def put (t : FileTree) (place : FilePlace) (e : FileEntry) : FileTree :=
  { t with entries := (place, e) :: t.entries.filter fun other => other.1 ≠ place }

def erase (t : FileTree) (place : FilePlace) : FileTree :=
  { t with entries := t.entries.filter fun other => other.1 ≠ place }

def names (t : FileTree) (place : FilePlace) : List String :=
  t.entries.filterMap fun (other, _) =>
    match other with
    | name :: parent => if parent = place then some name else none
    | [] => none

/-- The directory that a path is in, the last part of the path, and whether a slash follows it. -/
def split (t : FileTree) (path : String) : Except FileError (FilePlace × String × Bool) := do
  checkPath path
  let stem := Text.dropEndWhile (fun c => c = '/') path.toList
  match (parts (String.ofList stem)).reverse with
  | [] => .ok ([], "", true)
  | name :: parents =>
    let parent ← parents.reverse.foldlM t.follow (t.origin path)
    .ok (← t.follow parent ".", name, stem.length < path.length)

/-- The place of a file that is to be written. What ends with a slash or with dots is the name of a
directory. -/
def target (t : FileTree) (path : String) : Except FileError FilePlace := do
  let (parent, name, slash) ← t.split path
  if slash || name = "" || name = "." || name = ".." then .error .isDirectory
  else t.follow parent name

def writeAt (t : FileTree) (place : FilePlace) (bytes : List UInt8) : Except FileError FileTree :=
  match t.entry? place with
  | some .directory => .error .isDirectory
  | some (.link _) => .error .isDirectory
  | some .sink => .ok t
  | some .full => if bytes = [] then .ok t else .error .noSpace
  | _ => .ok (t.put place (.file bytes))

def write (t : FileTree) (path : String) (bytes : List UInt8) : Except FileError FileTree := do
  t.writeAt (← t.target path) bytes

def addDirectories (t : FileTree) : FilePlace → FileTree
  | [] => t
  | part :: parent =>
    let t := t.addDirectories parent
    if (t.entry? (part :: parent)).isNone then t.put (part :: parent) .directory else t

def goTo (t : FileTree) (place : FilePlace) (part : String) : FilePlace :=
  if part = "" || part = "." then place
  else if part = ".." then place.tail
  else t.resolved (part :: place)

def add (t : FileTree) (path : String) (e : FileEntry) : FileTree :=
  match (parts path).foldl t.goTo (t.origin path) with
  | [] => t
  | part :: parent => (t.addDirectories parent).put (part :: parent) e

def join (directory name : String) : String :=
  if directory = "" then name
  else if directory.toList.getLast? = some '/' then directory ++ name
  else directory ++ "/" ++ name

end FileTree

end ContractRegistry
