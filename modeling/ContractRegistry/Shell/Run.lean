import ContractRegistry.Shell.Arithmetic
import ContractRegistry.Shell.Expansion
import ContractRegistry.Tool.Catalogue

/-!
Running scripts.

Every call has less fuel than its caller, so that a script that would never end is stopped. The status of
a command is tested when something depends on it; where it is not, a shell may be told to end when a
command fails.
-/
namespace ContractRegistry.Shell

def declarations : List String := ["export", "readonly", "local", "alias"]

namespace Session

def afterTool (s : Session) (o : Tool.Outcome) : Session :=
  let s := { s.consume 0 o.taken with files := o.files }
  o.pieces.foldl (fun s piece =>
    match piece with
    | .output bytes => (s.write? 1 bytes).getD { s with status := 1 }
    | .complaint text => s.tell text) { s with status := o.status }

def useTool (s : Session) (program name : String) (arguments : List String) : Session :=
  let s := if program = "sleep" then s.settleAll else s
  match Tool.run? program ⟨name, arguments, s.input 0, s.files⟩ with
  | some o => s.afterTool o
  | none => s.ended 127

def missing (name : String) (e : FileError) : String × Nat :=
  if e = .notFound || e = .notDirectory then (name ++ ": not found", 127)
  else (name ++ ": " ++ e.reason, if name.toList.contains '/' then 126 else 127)

def program (s : Session) (name : String) : Session :=
  { Session.start s.files name [] with
    assigned := s.environment.foldl (fun assigned (name, value) =>
      (name, ⟨some value, true, false⟩) :: assigned.filter fun other => other.1 ≠ name)
      (initialVariables s.files)
    streams := s.streams
    channels := s.channels }

/-- Sets the options of a shell that begins. The letter `c` tells that a script follows. -/
def setUp : Nat → Bool → List String → Session → Bool × List String × Session
  | 0, script, arguments, s => (script, arguments, s)
  | fuel + 1, script, arguments, s =>
    match arguments with
    | [] => (script, [], s)
    | a :: rest =>
      match a.toList with
      | ['-'] => (script, rest, s)
      | ['-', '-'] => (script, rest, s)
      | '-' :: letters =>
        let known := letters.filter fun c => c ≠ 'c' && c ≠ 'l'
        let (s, rest) := s.setLetters true known rest
        if s.flow = .going then setUp fuel (script || letters.contains 'c') rest s
        else (script, rest, s)
      | '+' :: letters =>
        let (s, rest) := s.setLetters false letters rest
        if s.flow = .going then setUp fuel script rest s else (script, rest, s)
      | _ => (script, a :: rest, s)

def sourceFile (s : Session) (name : String) : Except String (List UInt8) :=
  let read (path : String) : Except FileError (List UInt8) :=
    match s.files.read path with
    | .error .isDirectory => .ok []
    | r => r
  if name.toList.contains '/' then (read name).mapError (fileComplaint false name)
  else
    match s.programDirectories.findSome? fun directory =>
        (s.files.read (FileTree.join directory name)).toOption with
    | some bytes => .ok bytes
    | none => .error (name ++ ": not found")

def afterProgram (s inner : Session) : Session :=
  let after := { s.afterInner inner with flow := s.flow }
  match inner.flow with
  | .killed signal => { after.tell (Signal.notice signal) with status := 128 + signal }
  | _ => after

end Session

def tokensOf (bytes : List UInt8) : List Located :=
  tokensFrom 1 (Text.Utf8.decodeLossy (bytes.filter fun b => b ≠ 0))

mutual

/-- Expands a part of a word. `apart` tells that words may fall apart, and `inValue` that what is written
falls apart too. -/
def expandPart : Nat → Bool → Bool → Part → Session → List Atom × Session
  | 0, _, _, _, s => ([], s)
  | _ + 1, _, inValue, .text quoted cs, s =>
    (if quoted then Atom.fixed cs else Atom.written inValue cs, s)
  | fuel + 1, apart, _, .parameter quoted p use, s => expandParameter fuel apart quoted p use s
  | _ + 1, _, _, .broken, s => ([], s.abort "Bad substitution" 2)
  | fuel + 1, _, _, .arithmetic quoted expression, s =>
    match documentWord 1 expression with
    | .error reason => ([], s.abort ("Syntax error: " ++ reason) 2)
    | .ok parts =>
      let (atoms, s) := expandParts fuel false false parts s
      let text := Atom.text atoms
      if s.flow ≠ .going then ([], s)
      else
        match Arithmetic.evaluate s.value text with
        | .ok (n, assigned) =>
          (Atom.ofValue quoted (toString n).toList,
            assigned.reverse.foldl (fun s (name, n) => s.next fun s => s.assign name (toString n)) s)
        | .error fault => ([], s.abort (fault.message (String.ofList text)) 2)
  | fuel + 1, _, _, .output quoted line script, s =>
    let opened := s.inner.openChannel 1 (.collected [])
    let id := opened.lastChannel
    let inner := finish fuel (lines fuel false (tokensFrom line script) opened)
    let text := trimmedOutput (inner.collected id)
    let after := (s.afterInner inner).dropChannel id
    (Atom.ofValue quoted text, { after with status := s.status, innerStatus := after.status })

def expandParameter : Nat → Bool → Bool → Parameter → Use → Session → List Atom × Session
  | 0, _, _, _, _, s => ([], s)
  | fuel + 1, apart, quoted, p, use, s =>
    let value? := s.meaningOf? quoted p
    let isGiven (blank : Bool) : Bool :=
      match value? with
      | none => false
      | some v => !(blank && s.textOf v = "")
    let orNothing (run : Value → List Atom × Session) : List Atom × Session :=
      match value? with
      | some v => run v
      | none =>
        if s.isSet 'u' && p.isRequired then ([], s.abort (p.text ++ ": parameter not set") 2)
        else (p.noAtoms quoted, s)
    let itself : List Atom × Session := orNothing fun v => (s.atomsOf apart quoted v, s)
    let without (cut : List Pattern.Step → List Char → List Char) (pattern : List Char) :
        List Atom × Session :=
      orNothing fun v =>
        let (atoms, s) := expandText fuel false false pattern s
        let steps := Pattern.ofLetters (Atom.letters atoms)
        (Atom.ofValue quoted (cut steps (s.textOf v).toList), s)
    let marked : List Atom := if quoted then [.mark] else []
    match use with
    | .plain => itself
    | .length =>
      let count (text : String) : List Atom := Atom.ofValue quoted (toString text.utf8ByteSize).toList
      match value? with
      | some v => (count (s.textOf v), s)
      | none =>
        if s.isSet 'u' && p.isRequired then ([], s.abort (p.text ++ ": parameter not set") 2)
        else (count "", s)
    | .fallback blank text =>
      if isGiven blank then itself
      else
        let (atoms, s) := expandText fuel apart quoted text s
        (marked ++ atoms, s)
    | .replacement blank text =>
      if isGiven blank then
        let (atoms, s) := expandText fuel apart quoted text s
        (marked ++ atoms, s)
      else (p.noAtoms quoted, s)
    | .assignment blank text =>
      if isGiven blank then itself
      else
        let (atoms, s) := expandText fuel false quoted text s
        let value := Atom.text atoms
        s.orEnd (Atom.ofValue quoted value) fun s =>
          match p with
          | .variable name => s.assign name (String.ofList value)
          | _ => s.abort (p.text ++ ": bad variable name") 2
    | .required blank text =>
      if isGiven blank then itself
      else if text = [] then
        ([], s.abort (p.text ++ ": parameter not set" ++ if blank then " or null" else "") 2)
      else
        let (atoms, s) := expandText fuel false quoted text s
        s.orEnd [] fun s => s.abort (p.text ++ ": " ++ String.ofList (Atom.text atoms)) 2
    | .withoutEnd longest pattern => without (Pattern.withoutEnd longest) pattern
    | .withoutStart longest pattern => without (Pattern.withoutStart longest) pattern

def expandText : Nat → Bool → Bool → List Char → Session → List Atom × Session
  | 0, _, _, _, s => ([], s)
  | fuel + 1, apart, quoted, text, s =>
    match wholeWord quoted text with
    | .error reason => ([], s.abort ("Syntax error: " ++ reason) 2)
    | .ok w => expandParts fuel apart true (if quoted then w else tilde s w) s

def expandParts : Nat → Bool → Bool → Word → Session → List Atom × Session
  | 0, _, _, _, s => ([], s)
  | _ + 1, _, _, [], s => ([], s)
  | fuel + 1, apart, inValue, part :: parts, s =>
    let (first, s) := expandPart fuel apart inValue part s
    if s.flow ≠ .going then (first, s)
    else
      let (rest, s) := expandParts fuel apart inValue parts s
      (first ++ rest, s)

/-- Expands words. Assignments stay whole behind a command that declares variables; `declaring` is not
known before the first word is. -/
def expandWords : Nat → Option Bool → List Word → Session → List String × Session
  | 0, _, _, s => ([], s)
  | _ + 1, _, [], s => ([], s)
  | fuel + 1, declaring, w :: ws, s =>
    let whole? := if declaring = some true then assignment? w else none
    let (atoms, s) := match whole? with
      | some (name, value) =>
        expandParts fuel false false
          (.text true (name ++ "=").toList :: tildes s true value) s
      | none => expandParts fuel true false (tilde s w) s
    if s.flow ≠ .going then ([], s)
    else
      let first := if whole?.isSome then [String.ofList (Atom.text atoms)] else s.wordsOf atoms
      let declaring := declaring.or (first.head?.map declarations.contains)
      let (rest, s) := expandWords fuel declaring ws s
      (first ++ rest, s)

def expandWhole : Nat → Word → Session → String × Session
  | 0, _, s => ("", s)
  | fuel + 1, w, s =>
    let (atoms, s) := expandParts fuel false false (tilde s w) s
    (String.ofList (Atom.text atoms), s)

def expandWays : Nat → List Redirection → Session → List (Nat × Way) × Session
  | 0, _, s => ([], s)
  | _ + 1, [], s => ([], s)
  | fuel + 1, r :: rs, s =>
    let (way?, s) : Option Way × Session := match r.target with
      | .input w => (expandWhole fuel w s).map (fun path => some (.file .input path)) id
      | .output w => (expandWhole fuel w s).map (fun path => some (.file .output path)) id
      | .replacement w => (expandWhole fuel w s).map (fun path => some (.file .replacement path)) id
      | .appended w => (expandWhole fuel w s).map (fun path => some (.file .appended path)) id
      | .both w => (expandWhole fuel w s).map (fun path => some (.file .both path)) id
      | .stream w => (expandWhole fuel w s).map wayOf? id
      | .document w =>
        (expandParts fuel false false w s).map
          (fun atoms => some (.document (Text.Utf8.encode (Atom.text atoms)))) id
    if s.flow ≠ .going then ([], s)
    else
      match way? with
      | none => ([], s.abort "Syntax error: Bad fd number" 2)
      | some way =>
        let (rest, s) := expandWays fuel rs s
        ((r.stream, way) :: rest, s)

/-- Gives variables their values, for the time of a command or for good, and returns the assignments as
texts. -/
def assignAll : Nat → Bool → List (String × Word) → Session → List String × Session
  | 0, _, _, s => ([], s)
  | _ + 1, _, [], s => ([], s)
  | fuel + 1, kept, (name, w) :: rest, s =>
    let (atoms, s) := expandParts fuel false false (tildes s true w) s
    let value := String.ofList (Atom.text atoms)
    let s := s.next fun s =>
      let s := (if kept then s.keep name else s).assign name value
      if kept then s.next fun s => s.mark name fun v => { v with exported := true } else s
    if s.flow ≠ .going then ([], s)
    else
      let (texts, s) := assignAll fuel kept rest s
      ((name ++ "=" ++ value) :: texts, s)

def trace : Nat → Option Nat → List String → Session → Session
  | 0, _, _, s => s
  | fuel + 1, channel?, texts, s =>
    match channel?, s.isSet 'x' with
    | some channel, true =>
      let (front, t) := match documentWord 1 (s.value "PS4").toList with
        | .ok w => expandWhole fuel w (s.setOption false 'x')
        | .error _ => (s.value "PS4", s)
      let t := t.setOption true 'x'
      let told := (t.copyStream 2 channel).tell (front ++ " ".intercalate texts ++ "\n")
      { told with streams := t.streams }
    | _, _ => s

def runSimple : Nat → Bool → Simple → Session → Session
  | 0, _, _, s => s
  | fuel + 1, tested, p, s =>
    let (words, s) := expandWords fuel none p.words { s with line := p.line, innerStatus := 0 }
    s.next fun s =>
      let (ways, before) := expandWays fuel p.redirections s
      before.next fun before =>
        let special := (words.head?.map specialBuiltins.contains).getD false
        let changed := ways.map Prod.fst
        match before.leadAll ways with
        | (false, s) =>
          let s := (s.withStreams before changed).ended 2
          if special then { s with flow := .failed } else s
        | (true, s) =>
          let kept := words ≠ [] && !special && p.assignments ≠ []
          let (texts, s) := assignAll fuel kept p.assignments (if kept then s.pushLocals else s)
          let s := s.next fun s =>
            let s := if texts = [] && words = [] then s
              else trace fuel (before.streams.lookup 2) (texts ++ words) s
            if words = [] then s.ended s.innerStatus else call fuel tested false words s
          let s := if kept then s.popLocals else s
          if words = ["exec"] then s else s.withStreams before changed

/-- Runs a command by its name. With `plain` there are no functions, and no command ends the shell by
failing. -/
def call : Nat → Bool → Bool → List String → Session → Session
  | 0, _, _, _, s => s
  | _ + 1, _, _, [], s => s.ended 0
  | fuel + 1, tested, plain, name :: arguments, s =>
    if specialBuiltins.contains name then
      let s := s.about name fun s => special fuel tested name arguments s
      if plain then s.recovered else s
    else
      match if plain then none else s.routines.lookup name with
      | some body =>
        if s.depth = Session.depthLimit then
          s.abort ("Maximum function recursion depth (" ++ toString Session.depthLimit ++ ") reached") 2
        else
          let called :=
            { s.pushLocals with arguments, loops := 0, depth := s.depth + 1, optionOffset := 0 }
          let after := run fuel tested body called
          { after.popLocals with
            arguments := s.arguments
            loops := s.loops
            depth := s.depth
            optionOffset := s.optionOffset }.returned
      | none =>
        if name = "command" then
          match optionLetters ['p', 'v', 'V'] arguments with
          | .error c =>
            (s.about name fun s => s.refuse ("Illegal option -" ++ String.singleton c)).recovered
          | .ok (letters, rest) =>
            if letters.contains 'v' || letters.contains 'V' then
              (s.ended 0).about name fun s =>
                (rest.take 1).foldl (fun s name => s.describe (letters.contains 'V') name) s
            else call fuel tested true rest s
        else if plainBuiltins.contains name then
          (s.about name fun s => (s.builtin? name arguments).getD s).recovered
        else runProgram fuel (name :: arguments) s

def special : Nat → Bool → String → List String → Session → Session
  | 0, _, _, _, s => s
  | fuel + 1, tested, name, arguments, s =>
    match name, arguments with
    | "eval", texts => lines fuel tested (tokensFrom 1 (" ".intercalate texts).toList) (s.ended 0)
    | ".", [] => s.ended 0
    | ".", file :: _ =>
      match s.sourceFile file with
      | .error text => s.refuse text
      | .ok bytes => (lines fuel tested (tokensOf bytes) (s.ended 0)).returned
    | "exec", [] => s.ended 0
    | "exec", words =>
      let after := runProgram fuel words s
      match after.flow with
      | .going => { after with flow := .exited, traps := [] }
      | _ => after
    | name, arguments => (s.builtin? name arguments).getD s

def runProgram : Nat → List String → Session → Session
  | 0, _, s => s
  | _ + 1, [], s => s
  | fuel + 1, name :: arguments, s =>
    match SearchPath.find s.files s.programDirectories name with
    | .error e =>
      let (text, status) := Session.missing name e
      s.fail text status
    | .ok (_, "sh") => s.afterProgram (shell fuel arguments (s.program name))
    | .ok (_, program) => s.useTool program name arguments

def shell : Nat → List String → Session → Session
  | 0, _, s => s
  | fuel + 1, arguments, s =>
    let (hasScript, rest, s) :=
      Session.setUp (arguments.length + 1) false arguments { s with line := 0 }
    let start (name : String) (arguments : List String) : Session := { s with name, arguments, line := 1 }
    finish fuel (s.next fun s =>
      match hasScript, rest with
      | true, [] => s.refuse "-c requires an argument"
      | true, script :: rest =>
        lines fuel false (tokensFrom 1 script.toList) (start (rest.headD s.name) (rest.drop 1))
      | false, rest =>
        match if s.isSet 's' then [] else rest with
        | [] =>
          let bytes := s.input 0
          lines fuel false (tokensOf bytes) ((start s.name rest).consume 0 bytes.length)
        | file :: rest =>
          match s.files.read file with
          | .ok bytes => lines fuel false (tokensOf bytes) (start file rest)
          | .error .isDirectory => s
          | .error e => s.refuse (fileComplaint false file e))

def lines : Nat → Bool → List Located → Session → Session
  | 0, _, _, s => { s with flow := .exited }
  | fuel + 1, tested, ts, s =>
    match nextLine ts with
    | .error refusal => { s with line := refusal.line }.abort refusal.reason 2
    | .ok none => s
    | .ok (some (c, rest)) => (run fuel tested c s).next (lines fuel tested rest)

def finish : Nat → Session → Session
  | 0, s => s
  | fuel + 1, s =>
    match s.flow, s.traps.lookup 0 with
    | .killed _, _ => s.settleAll
    | _, none => s.settleAll
    | _, some action =>
      let traps := s.traps.filter fun other => other.1 ≠ 0
      let after := lines fuel false (tokensFrom 1 action.toList) { s with traps, flow := .going }
      let status := if after.flow = .exited then after.status else s.status
      { after.settleAll with
        status
        flow := match after.flow with
          | .killed signal => .killed signal
          | _ => .exited }

def answer : Nat → Session → Session
  | 0, s => s
  | fuel + 1, s =>
    match s.flow, s.pending with
    | .going, signal :: more =>
      let action := (s.traps.lookup signal).getD ""
      let after := lines fuel false (tokensFrom 1 action.toList) { s with pending := more }
      answer fuel { after with status := if after.flow = .going then s.status else after.status }
    | _, _ => s

def run : Nat → Bool → Command → Session → Session
  | 0, _, _, s => { s with flow := .exited }
  | fuel + 1, tested, c, s =>
    if s.isSet 'n' then s
    else
      match c with
      | .nothing => s
      | .simple p => answer fuel ((runSimple fuel tested p s).checked tested)
      | .redirected line redirections body =>
        let (ways, before) := expandWays fuel redirections { s with line }
        before.next fun before =>
          let changed := ways.map Prod.fst
          match before.leadAll ways with
          | (false, s) => ((s.withStreams before changed).ended 2).checked tested
          | (true, s) => (run fuel tested body s).withStreams before changed
      | .sequence first second => (run fuel tested first s).next (run fuel tested second)
      | .both first second =>
        (run fuel true first s).next fun s => if s.status = 0 then run fuel tested second s else s
      | .either first second =>
        (run fuel true first s).next fun s => if s.status = 0 then s else run fuel tested second s
      | .negation body =>
        let s := run fuel true body s
        match s.flow with
        | .failed => s
        | .exited => s
        | .killed _ => s
        | _ => s.ended (if s.status = 0 then 1 else 0)
      | .pipe first second =>
        let opened := s.inner.openChannel 1 (.collected [])
        let id := opened.lastChannel
        let left := finish fuel (run fuel tested first opened)
        let bytes := left.collected id
        let s := (s.afterInner left).dropChannel id
        s.next fun s =>
          let opened := s.inner.openChannel 0 (.source bytes)
          let right := finish fuel (run fuel tested second opened)
          ((s.afterInner right).dropChannel opened.lastChannel).checked tested
      | .background body => s.afterBeside (finish fuel (run fuel false body s.beside))
      | .subshell line body =>
        (s.afterInner (finish fuel (run fuel tested body { s.inner with line }))).checked tested
      | .branch condition positive negative =>
        (run fuel true condition s).next fun s =>
          if s.status = 0 then run fuel tested positive s
          else run fuel tested negative (if negative matches .nothing then s.ended 0 else s)
      | .loop untilIt condition body =>
        let after := turns fuel tested untilIt condition body 0 { s with loops := s.loops + 1 }
        { after with loops := s.loops }
      | .each line name words body =>
        let (values, s) := match words with
          | some words => expandWords fuel (some false) words { s with line }
          | none => (s.arguments, { s with line })
        s.next fun s =>
          if values = [] then s.ended 0
          else
            let after := eachOf fuel tested name values body { s with loops := s.loops + 1 }
            { after with loops := s.loops }
      | .choice line subject cases =>
        let (text, s) := expandWhole fuel subject { s with line }
        s.next fun s => choose fuel tested text.toList cases s
      | .case _ body _ => run fuel tested body s
      | .definition _ name body =>
        { s.ended 0 with routines := (name, body) :: s.routines.filter fun r => r.1 ≠ name }

def turns : Nat → Bool → Bool → Command → Command → Nat → Session → Session
  | 0, _, _, _, _, _, s => { s with flow := .exited }
  | fuel + 1, tested, untilIt, condition, body, last, s =>
    let s := run fuel true condition s
    match s.flow with
    | .going =>
      if decide (s.status = 0) = untilIt then s.ended last
      else
        let s := run fuel tested body s
        match s.turn with
        | (true, s) => turns fuel tested untilIt condition body s.status s
        | (false, s) => s
    | .leaving _ _ =>
      match s.turn with
      | (true, s) => turns fuel tested untilIt condition body last s
      | (false, s) => s.ended last
    | _ => s

def eachOf : Nat → Bool → String → List String → Command → Session → Session
  | 0, _, _, _, _, s => { s with flow := .exited }
  | _ + 1, _, _, [], _, s => s
  | fuel + 1, tested, name, value :: values, body, s =>
    (s.assign name value).next fun s =>
      match (run fuel tested body s).turn with
      | (true, s) => eachOf fuel tested name values body s
      | (false, s) => s

def choose : Nat → Bool → List Char → Command → Session → Session
  | 0, _, _, _, s => s
  | fuel + 1, tested, text, c, s =>
    match c with
    | .case patterns body others =>
      let (isFound, s) := fitsAny fuel text patterns s
      s.next fun s =>
        if isFound then (if body matches .nothing then s.ended 0 else run fuel tested body s)
        else choose fuel tested text others s
    | _ => s.ended 0

def fitsAny : Nat → List Char → List Word → Session → Bool × Session
  | 0, _, _, s => (false, s)
  | _ + 1, _, [], s => (false, s)
  | fuel + 1, text, w :: ws, s =>
    let (atoms, s) := expandParts fuel false false (tilde s w) s
    if s.flow ≠ .going then (false, s)
    else if Pattern.fitsText (Pattern.ofLetters (Atom.letters atoms)) text then (true, s)
    else fitsAny fuel text ws s

end

def turnLimit : Nat := 1000000

def start (files : FileTree) (name : String) (arguments : List String) : ProcessRun × FileTree :=
  let s := shell turnLimit arguments (Session.start files name [])
  (s.finished, { s.files with directory := files.directory })

end ContractRegistry.Shell
