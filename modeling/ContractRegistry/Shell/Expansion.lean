import ContractRegistry.Shell.Builtin

/-!
What words stand for, as far as it is known without running anything: values of parameters, home
directories, and the files that patterns fit.
-/
namespace ContractRegistry.Shell

inductive Value where
  | one (text : String)
  /-- Arguments that stay apart where words may fall apart. -/
  | several (texts : List String)
deriving DecidableEq, Repr, Inhabited

namespace Session

def joint (s : Session) : String :=
  match s.value? "IFS" with
  | none => " "
  | some text => String.ofList (text.toList.take 1)

def meaningOf? (s : Session) (quoted : Bool) : Parameter → Option Value
  | .variable name => (s.value? name).map .one
  | .argument 0 => some (.one s.name)
  | .argument (n + 1) => (s.arguments[n]?).map .one
  | .arguments => if s.arguments = [] then none else some (.several s.arguments)
  | .joined =>
    if s.arguments = [] then none
    else if quoted then some (.one (s.joint.intercalate s.arguments))
    else some (.several s.arguments)
  | .argumentCount => some (.one (toString s.arguments.length))
  | .status => some (.one (toString s.status))
  | .process => some (.one (toString processId))
  | .lastProcess => s.lastJob.map fun n => .one (toString n)
  | .options => some (.one s.optionText)

def textOf (s : Session) : Value → String
  | .one text => text
  | .several texts => s.joint.intercalate texts

/-- The atoms of a value. Arguments stay apart when words may fall apart. -/
def atomsOf (s : Session) (apart quoted : Bool) : Value → List Atom
  | .one text => Atom.ofValue quoted text.toList
  | .several texts =>
    if !apart then Atom.ofValue quoted (s.joint.intercalate texts).toList
    else
      let between : Atom := if quoted then .gap else .letter true ⟨false, Atom.argumentEnd⟩
      ((texts.map fun text => Atom.ofValue quoted text.toList).intersperse [between]).flatten

end Session

def Parameter.text : Parameter → String
  | .variable name => name
  | .argument n => toString n
  | .arguments => "@"
  | .joined => "*"
  | .argumentCount => "#"
  | .status => "?"
  | .process => "$"
  | .lastProcess => "!"
  | .options => "-"

def Parameter.isRequired : Parameter → Bool
  | .arguments => false
  | .joined => false
  | _ => true

/-- The atoms of a parameter that stands for nothing. Arguments that are not there are no field. -/
def Parameter.noAtoms (quoted : Bool) : Parameter → List Atom
  | .arguments => []
  | _ => if quoted then [.mark] else []

def home? (s : Session) (name : List Char) : Option String :=
  if name = [] then s.value? "HOME"
  else if name = "root".toList then some "/root"
  else none

/-- Puts a home directory in place of a tilde in front. The name must end within the text. -/
def withHome (s : Session) (isLast : Bool) (ends : Char → Bool) (cs : List Char) : Option Word :=
  match cs with
  | '~' :: cs =>
    let name := cs.takeWhile fun c => !ends c
    let rest := cs.dropWhile fun c => !ends c
    if rest = [] && !isLast then none
    else
      (home? s name).map fun home =>
        .text true home.toList :: (if rest = [] then [] else [.text false rest])
  | _ => none

def tilde (s : Session) : Word → Word
  | .text false cs :: parts =>
    match withHome s (parts = []) (fun c => c = '/') cs with
    | some front => front ++ parts
    | none => .text false cs :: parts
  | w => w

def tildesIn (s : Session) (isLast : Bool) : List (List Char) → List Word
  | [] => []
  | piece :: more =>
    let whole := isLast && more = []
    let here := (withHome s (whole || more ≠ []) (fun c => c = '/') piece).getD [.text false piece]
    here :: tildesIn s isLast more

def tildes (s : Session) : Bool → Word → Word
  | isFront, .text false cs :: parts =>
    let pieces := cs.splitOn ':'
    let words := match isFront, pieces with
      | true, pieces => tildesIn s (parts = []) pieces
      | false, first :: more => [.text false first] :: tildesIn s (parts = []) more
      | false, [] => []
    (words.intersperse [.text false [':']]).flatten ++ tildes s false parts
  | _, part :: parts => part :: tildes s false parts
  | _, [] => []

namespace Session

def pathsOf (s : Session) (field : List Letter) : List String :=
  let self := String.ofList (Pattern.text field)
  if s.isSet 'f' then [self]
  else
    match Pattern.paths s.files field with
    | [] => [self]
    | paths => paths

def wordsOf (s : Session) (atoms : List Atom) : List String :=
  (fields s.separators atoms).flatMap s.pathsOf

end Session

def trimmedOutput (bytes : List UInt8) : List Char :=
  Text.dropEndWhile (fun c => c = '\n')
    (Text.Utf8.decodeLossy (bytes.filter fun b => b ≠ 0))

inductive Way where
  | file (a : Arrow) (path : String)
  | copy (stream : Nat)
  | closing
  | document (bytes : List UInt8)
deriving DecidableEq, Repr, Inhabited

def wayOf? (text : String) : Option Way :=
  match text.toList with
  | ['-'] => some .closing
  | [c] => (Numeral.decimalDigit? c).map .copy
  | _ => none

def fileComplaint (making : Bool) (path : String) (e : FileError) : String :=
  let deed := if making then "cannot create " else "cannot open "
  let missing := if making then "Directory nonexistent" else "No such file"
  deed ++ path ++ ": " ++
    (if e = .notFound || e = .notDirectory then missing else e.reason)

def channelOf (place : FilePlace) (position : Nat) (appended : Bool) : FileEntry → Channel
  | .file _ => .file place position appended
  | .program _ => .file place position appended
  | .full => .full
  | _ => .sink

namespace Session

def openFile (s : Session) (stream : Nat) (path : String) : Except FileError Session := do
  let place ← s.files.locate path
  match s.files.entry? place with
  | some e => .ok (s.openChannel stream (channelOf place 0 false e))
  | none => .error .notFound

def makeFile (s : Session) (a : Arrow) (stream : Nat) (path : String) : Except FileError Session := do
  let place ← s.files.target path
  let appended : Bool := a = .appended
  let kept : Bool := appended || a = .both
  match s.files.entry? place with
  | some .directory => .error .isDirectory
  | some (.link _) => .error .isDirectory
  | some (.file bytes) =>
    if s.isSet 'C' && a = .output then .error .alreadyThere
    else
      let files := if kept then s.files else s.files.put place (.file [])
      .ok ({ s with files }.openChannel stream
        (.file place (if appended then bytes.length else 0) appended))
  | some e => .ok (s.openChannel stream (channelOf place 0 false e))
  | none =>
    .ok ({ s with files := s.files.put place (.file []) }.openChannel stream
      (.file place 0 appended))

def lead (s : Session) (stream : Nat) : Way → Except String Session
  | .file .input path =>
    (s.openFile stream path).mapError (fileComplaint false path)
  | .file a path => (s.makeFile a stream path).mapError (fileComplaint true path)
  | .copy other =>
    if other = stream then .ok s
    else
      match s.streams.lookup other with
      | some id => .ok (s.copyStream stream id)
      | none => .error (toString other ++ ": Bad file descriptor")
  | .closing => .ok (s.closeStream stream)
  | .document bytes => .ok (s.openChannel stream (.source bytes))

/-- Changes the ways of streams one after another, and tells about the first one that fails. -/
def leadAll (s : Session) : List (Nat × Way) → Bool × Session
  | [] => (true, s)
  | (stream, way) :: more =>
    match s.lead stream way with
    | .ok s => leadAll s more
    | .error text => (false, s.warn text)

def inner (s : Session) : Session :=
  { s with traps := s.traps.filter (fun other => other.2 = ""), jobs := [], pending := [] }

def lastChannel (s : Session) : Nat :=
  (s.channels.head?.map Prod.fst).getD 0

def dropChannel (s : Session) (id : Nat) : Session :=
  { s with channels := s.channels.filter fun c => c.1 ≠ id }

def beside (s : Session) : Session :=
  let inner := s.inner.openChannel 0 .sink
  { inner with channels := inner.channels.map fun (id, c) =>
      (id, match c with
        | .collected _ => .collected []
        | c => c) }

def afterBeside (s inner : Session) : Session :=
  let number := processId + 1 + s.jobs.length
  let written := inner.channels.filterMap fun (id, c) =>
    match c with
    | .collected (part :: parts) => some (id, part :: parts)
    | _ => none
  let channels := s.channels.map fun (id, c) =>
    (id, match c with
      | .collected parts => .collected parts
      | c => (inner.channels.lookup id).getD c)
  let after := s.afterInner inner
  let job : Job := ⟨after.status, written, none, false⟩
  { after with
    channels
    jobs := (number, job) :: s.jobs
    lastJob := some number
    status := 0 }

def checked (s : Session) (tested : Bool) : Session :=
  if tested || s.status = 0 || !s.isSet 'e' then s
  else
    match s.flow with
    | .going => { s with flow := .exited }
    | .leaving _ _ => { s with flow := .exited }
    | .returning => { s with flow := .exited }
    | _ => s

def turn (s : Session) : Bool × Session :=
  match s.flow with
  | .going => (true, s)
  | .leaving 1 again => (again, { s with flow := .going })
  | .leaving (n + 1) again => (false, { s with flow := .leaving n again })
  | _ => (false, s)

def recovered (s : Session) : Session :=
  if s.flow = .failed then { s with flow := .going } else s

def returned (s : Session) : Session :=
  if s.flow = .returning then { s with flow := .going } else s

end Session

end ContractRegistry.Shell
