import ContractRegistry.SearchPath
import ContractRegistry.Shell.Condition
import ContractRegistry.Shell.Field
import ContractRegistry.Shell.Format
import ContractRegistry.Shell.Grammar
import ContractRegistry.Shell.Session
import ContractRegistry.Shell.Signal

/-!
The commands that a shell knows by itself, as far as they run no other commands.

A special command ends the shell when it fails. The others only end themselves; whoever calls them sees
to that.
-/
namespace ContractRegistry.Shell

def specialBuiltins : List String := specialNames

def plainBuiltins : List String :=
  ["[", "alias", "bg", "cd", "chdir", "command", "echo", "false", "fg", "getopts", "hash", "jobs",
    "kill", "printf", "pwd", "read", "test", "true", "type", "ulimit", "umask", "unalias", "wait"]

def optionNames : List (Char × String) :=
  [('e', "errexit"), ('f', "noglob"), ('I', "ignoreeof"), ('i', "interactive"), ('m', "monitor"),
    ('n', "noexec"), ('s', "stdin"), ('x', "xtrace"), ('v', "verbose"), ('V', "vi"), ('E', "emacs"),
    ('C', "noclobber"), ('a', "allexport"), ('b', "notify"), ('u', "nounset"), ('p', "privileged"),
    ('\x01', "nolog"), ('\x02', "debug")]

/-- A text in single quotes, as the shell would read it again. Quotes stand in other quotes. -/
def requote (text : String) : String :=
  let rec go : List Char → List Char
    | [] => []
    | c :: cs => if c = '\'' then "'\"'\"'".toList ++ go cs else c :: go cs
  "'" ++ String.ofList (go text.toList) ++ "'"

/-- The letters of options in front, and the other arguments; or a letter that is not known. -/
def optionLetters (known : List Char) : List String → Except Char (List Char × List String)
  | [] => .ok ([], [])
  | a :: rest =>
    match a.toList with
    | ['-', '-'] => .ok ([], rest)
    | '-' :: c :: cs =>
      match (c :: cs).find? fun c => !known.contains c with
      | some c => .error c
      | none => do
        let (more, rest) ← optionLetters known rest
        .ok (c :: cs ++ more, rest)
    | _ => .ok ([], a :: rest)

namespace Session

def refuse (s : Session) (text : String) : Session :=
  s.abort text 2

def printLines (s : Session) (lines : List String) : Session :=
  s.print (lines.flatMap fun line => Escape.bytesOf (line ++ "\n"))

def withOptions (s : Session) (known : List Char) (arguments : List String)
    (run : List Char → List String → Session) : Session :=
  match optionLetters known arguments with
  | .ok (letters, rest) => run letters rest
  | .error c => s.refuse ("Illegal option -" ++ String.singleton c)

def withCount (s : Session) (text : String) (run : Nat → Session) : Session :=
  match Integer.count? text with
  | some n => run n
  | none => s.refuse ("Illegal number: " ++ text)

def echo (s : Session) (arguments : List String) : Session :=
  let (text, ending) : String × List UInt8 := match arguments with
    | "-n" :: rest => (" ".intercalate rest, [])
    | _ => (" ".intercalate arguments, [10])
  let w := Escape.unescape false text
  s.print (w.bytes ++ if w.stopped then [] else ending)

def valueComplaint : Format.Complaint → String
  | .notNumeric value => value ++ ": expected numeric value"
  | .notConverted value => value ++ ": not completely converted"
  | .outOfRange value => value ++ ": Numerical result out of range"

def printf (s : Session) (arguments : List String) : Session :=
  s.withOptions [] arguments fun _ rest =>
    match rest with
    | [] => s.refuse "usage: printf format [arg ...]"
    | format :: values =>
      let p := Format.printf false format values
      let s := p.complaints.reverse.foldl (fun s c => s.warn (valueComplaint c)) s
      let s := s.print p.bytes
      match p.ending with
      | some (.failed (.invalidDirective directive)) => s.refuse (directive ++ ": invalid directive")
      | some (.failed .missingLetter) => s.refuse "missing format character"
      | _ => if p.complaints = [] then s else s.ended 1

def test (s : Session) (bracket : Bool) (arguments : List String) : Session :=
  match Condition.decide? s.files bracket arguments with
  | .ok holds => s.ended (if holds then 0 else 1)
  | .error fault => s.refuse fault.message

def exit (s : Session) : List String → Session
  | [] => { s with flow := .exited }
  | text :: _ => s.withCount text fun n => { s with status := n, flow := .exited }

def leave (s : Session) : List String → Session
  | [] => { s with flow := .returning }
  | text :: _ => s.withCount text fun n => { s with status := n, flow := .returning }

def leaveLoops (s : Session) (again : Bool) (arguments : List String) : Session :=
  let text := arguments.headD "1"
  match Integer.count? text with
  | some (n + 1) =>
    let count := min (n + 1) s.loops
    if count = 0 then s.ended 0 else { s with status := 0, flow := .leaving count again }
  | _ => s.refuse ("Illegal number: " ++ text)

def shift (s : Session) (arguments : List String) : Session :=
  s.withCount (arguments.headD "1") fun n =>
    if s.arguments.length < n then s.refuse "can't shift that many"
    else { s with arguments := s.arguments.drop n, status := 0, optionOffset := 0 }

def listing (front : String) (assigned : List (String × Variable)) : List String :=
  (assigned.mergeSort fun a b => decide (a.1 ≤ b.1)).map fun (name, v) =>
    front ++ name ++ match v.value with
      | some value => "=" ++ requote value
      | none => ""

def assigned? (text : String) : String × Option String :=
  let name := text.toList.takeWhile fun c => c ≠ '='
  match text.toList.dropWhile fun c => c ≠ '=' with
  | [] => (text, none)
  | _ :: value => (String.ofList name, some (String.ofList value))

def forNames (s : Session) (change : Session → String → Option String → Session) :
    List String → Session
  | [] => s.ended 0
  | text :: rest =>
    let (name, value) := assigned? text
    let s :=
      if isName name.toList then change s name value else s.refuse (name ++ ": bad variable name")
    if s.flow = .going then forNames s change rest else s

def mark (s : Session) (name : String) (change : Variable → Variable) : Session :=
  s.setVariable name (some (change ((s.assigned.lookup name).getD ⟨none, false, false⟩)))

def assignMaybe (s : Session) (name : String) : Option String → Session
  | some value => s.assign name value
  | none => s

def exporting (s : Session) (arguments : List String) : Session :=
  s.withOptions ['p'] arguments fun _ names =>
    if names = [] then
      s.printLines (listing "export " (s.assigned.filter fun v => v.2.exported))
    else
      s.forNames (fun s name value =>
        (s.assignMaybe name value).next fun s => s.mark name fun v => { v with exported := true }) names

def fixing (s : Session) (arguments : List String) : Session :=
  s.withOptions ['p'] arguments fun _ names =>
    if names = [] then
      s.printLines (listing "readonly " (s.assigned.filter fun v => v.2.fixed))
    else
      s.forNames (fun s name value =>
        (s.assignMaybe name value).next fun s => s.mark name fun v => { v with fixed := true }) names

def localize (s : Session) (arguments : List String) : Session :=
  if s.locals = [] then s.refuse "not in a function"
  else s.forNames (fun s name value => (s.keep name).assignMaybe name value) arguments

def forget (s : Session) (name : String) : Session :=
  if !isName name.toList then s.refuse (name ++ ": bad variable name")
  else if s.isFixed name then s.refuse (name ++ ": is read only")
  else s.setVariable name none

def unset (s : Session) (arguments : List String) : Session :=
  s.withOptions ['v', 'f'] arguments fun letters names =>
    if letters.getLast? = some 'f' then
      { s with routines := s.routines.filter (fun r => !names.contains r.1), status := 0 }
    else (names.foldl (fun s name => s.next fun s => s.forget name) s).next fun s => s.ended 0

def setOption (s : Session) (on : Bool) (letter : Char) : Session :=
  let others := s.options.filter fun c => c ≠ letter
  { s with options := if on then letter :: others else others }

def optionText (s : Session) : String :=
  String.ofList (((optionNames.map Prod.fst).filter fun c => s.isSet c && c.isAlpha).reverse)

def showOptions (s : Session) (on : Bool) : Session :=
  let line (letter : Char) (name : String) : String :=
    if on then name ++ String.ofList (List.replicate (16 - name.length) ' ') ++
      (if s.isSet letter then "on" else "off")
    else "set " ++ (if s.isSet letter then "-" else "+") ++ "o " ++ name
  s.printLines ((if on then ["Current option settings"] else []) ++
    optionNames.map fun (letter, name) => line letter name)

/-- Sets options by their letters. With a letter `o` the name of an option follows. -/
def setLetters (s : Session) (on : Bool) : List Char → List String → Session × List String
  | [], rest => (s, rest)
  | 'o' :: letters, [] => setLetters (s.showOptions on) on letters []
  | 'o' :: letters, name :: rest =>
    match optionNames.find? fun o => o.2 = name with
    | some (letter, _) => setLetters (s.setOption on letter) on letters rest
    | none => (s.refuse ("Illegal option -o " ++ name), rest)
  | letter :: letters, rest =>
    if letter.isAlpha && optionNames.any fun o => o.1 = letter then
      setLetters (s.setOption on letter) on letters rest
    else (s.refuse ("Illegal option -" ++ String.singleton letter), rest)

/-- Sets options and arguments. Two hyphens stand before arguments, of which there may be none. -/
def setAll : Nat → Session → List String → Session
  | 0, s, _ => s
  | fuel + 1, s, arguments =>
    let arguments? (rest : List String) : Session :=
      if rest = [] then s else { s with arguments := rest, optionOffset := 0 }
    match arguments with
    | [] => s
    | a :: rest =>
      match a.toList with
      | ['-'] => (((arguments? rest).setOption false 'x').setOption false 'v')
      | ['-', '-'] => { s with arguments := rest, optionOffset := 0 }
      | '-' :: letters =>
        let (s, rest) := s.setLetters true letters rest
        s.next fun s => setAll fuel s rest
      | '+' :: letters =>
        let (s, rest) := s.setLetters false letters rest
        s.next fun s => setAll fuel s rest
      | _ => { s with arguments := a :: rest, optionOffset := 0 }

def set (s : Session) (arguments : List String) : Session :=
  if arguments = [] then
    s.printLines (listing "" (s.assigned.filter fun v => v.2.value.isSome))
  else setAll (arguments.length + 1) (s.ended 0) arguments

/-- The characters of a line, up to a line break that is not behind a backslash. Each turn takes a
character at least, and `fuel` bounds the turns. -/
def lineAtoms (raw : Bool) : Nat → List Char → List Atom
  | 0, _ => []
  | _ + 1, [] => []
  | fuel + 1, c :: cs =>
    if c = '\\' && !raw then
      match cs with
      | [] => []
      | '\n' :: cs => lineAtoms raw fuel cs
      | d :: cs => .letter false ⟨true, d⟩ :: lineAtoms raw fuel cs
    else .letter true ⟨true, c⟩ :: lineAtoms raw fuel cs

/-- The lines at the front that belong together, without the last line break, and whether there is
one. -/
def lineBytes (raw : Bool) : List UInt8 → List UInt8 × Bool
  | [] => ([], false)
  | b :: bs =>
    if b = 10 then ([], true)
    else if b = 92 && !raw then
      match bs with
      | [] => ([b], false)
      | c :: bs =>
        let (line, whole) := lineBytes raw bs
        (b :: c :: line, whole)
    else
      let (line, whole) := lineBytes raw bs
      (b :: line, whole)

def separators (s : Session) : List Char :=
  ((s.value? "IFS").getD " \t\n").toList

/-- Gives variables the fields of a line. Those without a field are empty. -/
def assignFields (s : Session) : List String → List (List Letter) → Session
  | [], _ => s
  | name :: names, fields =>
    (s.assign name (String.ofList (Pattern.text (fields.headD [])))).next fun s =>
      assignFields s names fields.tail

def readLine (s : Session) (arguments : List String) : Session :=
  s.withOptions ['r', 'p'] arguments fun letters rest =>
    let names := if letters.contains 'p' then rest.drop 1 else rest
    match names, names.find? fun name => !isName name.toList with
    | [], _ => s.refuse "arg count"
    | _, some name => s.refuse (name ++ ": bad variable name")
    | names, none =>
      let raw := letters.contains 'r'
      let (line, whole) := lineBytes raw (s.input 0)
      let s := s.consume 0 (line.length + if whole then 1 else 0)
      let cs := Text.Utf8.decodeLossy (line.filter fun b => b ≠ 0)
      let fields := fieldsUpTo s.separators names.length (lineAtoms raw (cs.length + 1) cs)
      (s.assignFields names fields).next fun s => s.ended (if whole then 0 else 1)

/-- Where `getopts` goes on: the number of the next argument, and the letters that are left of the
argument before it. -/
def nextLetters (s : Session) (given : List String) : Nat × List Char :=
  let index := (Integer.count? (s.value "OPTIND")).getD 1
  let word (number : Nat) : List Char := ((given[number]?).getD "").toList
  let current := if index < 2 || s.optionOffset = 0 then [] else (word (index - 2)).drop s.optionOffset
  if current ≠ [] then (index, current)
  else
    match word (index - 1) with
    | ['-', '-'] => (index + 1, [])
    | '-' :: c :: cs => (index + 1, c :: cs)
    | _ => (index, [])

def option (s : Session) (target letter : String) (index offset : Nat) : Session :=
  { (s.put "OPTIND" (toString index)).assign target letter with optionOffset := offset, status := 0 }

def getopts (s : Session) (arguments : List String) : Session :=
  match arguments with
  | letters :: target :: given =>
    let given := if given = [] then s.arguments else given
    let (index, front) := s.nextLetters given
    match front with
    | [] => (s.option target "?" index 0).ended 1
    | c :: cs =>
      let name := String.singleton c
      let offset := ((given[index - 2]?).getD "").length - cs.length
      let wrong (letter text : String) : Session :=
        if letters.toList.head? = some ':' then (s.put "OPTARG" name).option target letter index offset
        else ((s.tell text).setVariable "OPTARG" none).option target "?" index offset
      match letters.toList.dropWhile fun d => d ≠ c, c == ':' with
      | _ :: ':' :: _, false =>
        match cs, given[index - 1]? with
        | [], none => wrong ":" ("No arg for -" ++ name ++ " option\n")
        | [], some argument => (s.put "OPTARG" argument).option target name (index + 1) 0
        | cs, _ => (s.put "OPTARG" (String.ofList cs)).option target name index 0
      | _ :: _, false => (s.put "OPTARG" "").option target name index offset
      | _, _ => wrong "?" ("Illegal option -" ++ name ++ "\n")
  | _ => s.refuse "Usage: getopts optstring var [arg...]"

def killUsage : String :=
  "Usage: kill [-s sigspec | -signum | -sigspec] [pid | job]... or\nkill -l [exitstatus]"

def receive (s : Session) (signal : Nat) : Session :=
  let ending : Session := { s with status := 128 + signal, flow := .killed signal }
  if Signal.uncatchable.contains signal then ending
  else
    match s.traps.lookup signal with
    | some "" => s
    | some _ => { s with pending := s.pending ++ [signal] }
    | none => if Signal.harmless.contains signal then s else ending

def send (s : Session) (signal : Nat) (target : String) : Session :=
  match Integer.count? target, Integer.count? (String.ofList (target.toList.drop 1)) with
  | none, none => s.refuse ("Illegal number: " ++ target)
  | none, some _ =>
    if target.toList.head? = some '-' then s.fail "No such process\n" 1
    else s.refuse ("Illegal number: " ++ target)
  | some number, _ =>
    if number = processId || number = 0 then s.receive signal
    else
      match s.jobs.lookup number with
      | some job =>
        if job.awaited then s.fail "No such process\n" 1
        else
          let job : Job := if Signal.harmless.contains signal then job
            else { status := 128 + signal, written := [], signal := some signal, awaited := false }
          { s with jobs := s.jobs.map fun (n, old) => (n, if n = number then job else old) }
      | none => s.fail "No such process\n" 1

def sendAll (s : Session) (signal : Nat) (targets : List String) : Session :=
  targets.foldl (fun s target => s.next fun s => s.send signal target) (s.ended 0)

def nameSignal (s : Session) : List String → Session
  | [] => s.printLines ("0" :: ((List.range Signal.count).drop 1).map Signal.name)
  | text :: _ => s.withCount text fun n =>
    let signal := if 128 < n then n - 128 else n
    if 0 < signal && signal < Signal.count then s.printLines [Signal.name signal]
    else s.refuse ("invalid signal number or exit status: " ++ text)

def kill (s : Session) (arguments : List String) : Session :=
  let sending (signal : Nat) (targets : List String) : Session :=
    if targets = [] then s.refuse killUsage else s.sendAll signal targets
  match arguments with
  | [] => s.refuse killUsage
  | first :: rest =>
    match first.toList with
    | '-' :: text =>
      match Signal.ofText? (String.ofList text), text, rest with
      | some signal, _, rest => sending signal rest
      | none, ['-'], rest => sending 15 rest
      | none, ['l'], rest => s.nameSignal rest
      | none, ['s'], name :: rest =>
        match Signal.ofText? name with
        | some signal => sending signal rest
        | none => s.refuse ("invalid signal number or name: " ++ name)
      | none, ['s'], [] => s.refuse "No arg for -s option"
      | none, c :: _, _ =>
        s.refuse ("Illegal option -" ++ String.singleton c)
      | none, [], _ => s.refuse ("Illegal number: -")
    | _ => sending 15 arguments

def trapOn (s : Session) (action : Option String) : List String → Session
  | [] => s.ended 0
  | text :: rest =>
    match Signal.ofText? text with
    | none => (s.tell ("trap: " ++ text ++ ": bad trap\n")).ended 1
    | some signal =>
      let others := s.traps.filter fun other => other.1 ≠ signal
      trapOn { s with traps := match action with
        | some text => (signal, text) :: others
        | none => others } action rest

def trap (s : Session) (arguments : List String) : Session :=
  s.withOptions [] arguments fun _ rest =>
    match rest with
    | [] =>
      s.printLines ((s.traps.mergeSort fun a b => decide (a.1 ≤ b.1)).map fun (signal, text) =>
        "trap -- " ++ requote text ++ " " ++ Signal.name signal)
    | [signal] => s.trapOn none [signal]
    | "-" :: signals => s.trapOn none signals
    | action :: signals =>
      if (Integer.count? action).isSome then s.trapOn none (action :: signals)
      else s.trapOn (some action) signals

def await (s : Session) (number : Nat) : Session :=
  match s.jobs.lookup number with
  | none => s.ended 127
  | some job =>
    let s := s.settle job
    let s := match job.signal, job.awaited with
      | some signal, false => s.tell (Signal.notice signal)
      | _, _ => s
    let job : Job := { job with written := [], awaited := true }
    { s with
      jobs := s.jobs.map fun (n, old) => (n, if n = number then job else old)
      status := job.status }

def wait (s : Session) (arguments : List String) : Session :=
  if arguments = [] then
    ((s.jobs.reverse.map Prod.fst).foldl await s).ended 0
  else
    arguments.foldl (fun s text => s.next fun s =>
      if text.toList.head? = some '%' then s.refuse ("No such job: " ++ text)
      else s.withCount text s.await) s

def plainPath (base path : String) : String :=
  let full := if path.toList.head? = some '/' then path else base ++ "/" ++ path
  let parts := (FileTree.parts full).foldl (fun done part =>
    if part = "" || part = "." then done
    else if part = ".." then done.drop 1
    else part :: done) ([] : List String)
  "/" ++ "/".intercalate parts.reverse

def changeDirectory (s : Session) (arguments : List String) : Session :=
  s.withOptions ['L', 'P'] arguments fun _ rest =>
    let back := rest.head? = some "-"
    let target := match rest with
      | [] => s.value "HOME"
      | "-" :: _ => (s.value? "OLDPWD").getD (s.value "PWD")
      | path :: _ => path
    let target := if target = "" then "." else target
    let place? : Option FilePlace := match s.files.locate target with
      | .ok place => if s.files.entry? place = some .directory then some place else none
      | .error _ => none
    match place? with
    | none => s.refuse ("can't cd to " ++ target)
    | some place =>
      let old := s.value "PWD"
      let new := plainPath old target
      let s := { s with files := { s.files with directory := place } }
      let s := (s.put "OLDPWD" old).put "PWD" new
      if back then s.printLines [new] else s.ended 0

def programDirectories (s : Session) : List String :=
  SearchPath.directories (s.value "PATH")

def meaning? (s : Session) (name : String) : Option (String × String) :=
  if reservedWords.contains name then some (name, name ++ " is a shell keyword")
  else if (s.routines.lookup name).isSome then some (name, name ++ " is a shell function")
  else if specialBuiltins.contains name then some (name, name ++ " is a special shell builtin")
  else if plainBuiltins.contains name then some (name, name ++ " is a shell builtin")
  else if name.toList.contains '/' then
    if (s.files.find name).isOk then some (name, name ++ " is " ++ name) else none
  else
    match SearchPath.find s.files s.programDirectories name with
    | .ok (path, _) => some (path, name ++ " is " ++ path)
    | .error _ => none

/-- Tells about a command. Names that mean nothing are told too, if asked for. -/
def describe (s : Session) (verbose : Bool) (name : String) : Session :=
  match s.meaning? name with
  | some (path, sentence) => s.printLines [if verbose then sentence else path]
  | none => (if verbose then s.printLines [name ++ ": not found"] else s).ended 127

def types (s : Session) (names : List String) : Session :=
  names.foldl (fun s name =>
    let status := s.status
    let s := s.describe true name
    if s.status = 0 then s.ended status else s) (s.ended 0)

def umask (s : Session) (arguments : List String) : Session :=
  match arguments with
  | [] => s.printLines ["0022"]
  | "-S" :: _ => s.printLines ["u=rwx,g=rx,o=rx"]
  | text :: _ =>
    if text.toList.all fun c => (Integer.octalDigit? c).isSome then s.ended 0
    else if (text.toList.head?.map Char.isDigit).getD false then s.refuse ("Illegal number: " ++ text)
    else s.ended 0

/-- Shows a limit, or sets it. No limit is kept. -/
def limit (s : Session) (arguments : List String) : Session :=
  s.withOptions "HSatfdsmcnpvlwre".toList arguments fun _ rest =>
    match rest with
    | [] => s.printLines ["unlimited"]
    | text :: _ =>
      if text = "unlimited" || (Integer.count? text).isSome then s.ended 0 else s.refuse "bad number"

def builtin? (s : Session) (command : String) (arguments : List String) : Option Session :=
  match command with
  | ":" => some (s.ended 0)
  | "true" => some (s.ended 0)
  | "false" => some (s.ended 1)
  | "echo" => some (s.echo arguments)
  | "printf" => some (s.printf arguments)
  | "test" => some (s.test false arguments)
  | "[" => some (s.test true arguments)
  | "exit" => some (s.exit arguments)
  | "return" => some (s.leave arguments)
  | "break" => some (s.leaveLoops false arguments)
  | "continue" => some (s.leaveLoops true arguments)
  | "shift" => some (s.shift arguments)
  | "set" => some (s.set arguments)
  | "export" => some (s.exporting arguments)
  | "readonly" => some (s.fixing arguments)
  | "local" => some (s.localize arguments)
  | "unset" => some (s.unset arguments)
  | "read" => some (s.readLine arguments)
  | "getopts" => some (s.getopts arguments)
  | "kill" => some (s.kill arguments)
  | "trap" => some (s.trap arguments)
  | "wait" => some (s.wait arguments)
  | "cd" => some (s.changeDirectory arguments)
  | "chdir" => some (s.changeDirectory arguments)
  | "pwd" => some (s.printLines [s.value "PWD"])
  | "type" => some (s.types arguments)
  | "umask" => some (s.umask arguments)
  | "ulimit" => some (s.limit arguments)
  | "times" => some (s.printLines (List.replicate 2 "0m0.000000s 0m0.000000s"))
  | "fg" => some (s.refuse "No current job")
  | "bg" => some (s.refuse "No current job")
  | "jobs" => some (s.ended 0)
  | "hash" => some (s.ended 0)
  | "alias" => some (s.ended 0)
  | "unalias" => some (s.ended 0)
  | _ => none

end Session

end ContractRegistry.Shell
