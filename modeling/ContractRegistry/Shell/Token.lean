import ContractRegistry.Shell.Word

/-!
Tokens of scripts: words, redirections, and the signs between commands.

Each token knows the line on which it ends. Where a script cannot be read the tokens end with the
reason, so that the commands in front of it can be run.
-/
namespace ContractRegistry.Shell

inductive Sign where
  | finish
  | newline
  | semicolon
  | background
  | both
  | either
  | pipe
  | opening
  | closing
  | caseEnd
deriving DecidableEq, Repr, Inhabited

def Sign.name : Sign → String
  | .finish => "end of file"
  | .newline => "newline"
  | .semicolon => "\";\""
  | .background => "\"&\""
  | .both => "\"&&\""
  | .either => "\"||\""
  | .pipe => "\"|\""
  | .opening => "\"(\""
  | .closing => "\")\""
  | .caseEnd => "\";;\""

inductive Arrow where
  | input
  | output
  | replacement
  | appended
  | both
  | stream
deriving DecidableEq, Repr, Inhabited

inductive Token where
  | word (parts : Word)
  | arrow (stream : Nat) (a : Arrow)
  /-- Lines that are given to a command. -/
  | document (stream : Nat) (body : Word)
  | sign (s : Sign)
  /-- The reason why there are no more tokens. -/
  | unreadable (reason : String)
deriving DecidableEq, Repr, Inhabited

structure Located where
  line : Nat
  token : Token
deriving DecidableEq, Repr, Inhabited

def sign? : List Char → Option (Sign × List Char)
  | '&' :: '&' :: cs => some (.both, cs)
  | '|' :: '|' :: cs => some (.either, cs)
  | ';' :: ';' :: cs => some (.caseEnd, cs)
  | '&' :: cs => some (.background, cs)
  | ';' :: cs => some (.semicolon, cs)
  | '|' :: cs => some (.pipe, cs)
  | '(' :: cs => some (.opening, cs)
  | ')' :: cs => some (.closing, cs)
  | _ => none

/-- The arrow at the front, with its stream. A digit right before it is another stream. -/
def arrow? (stream : Option Nat) : List Char → Option (Nat × Arrow × List Char)
  | '>' :: '>' :: cs => some (stream.getD 1, .appended, cs)
  | '>' :: '|' :: cs => some (stream.getD 1, .replacement, cs)
  | '>' :: '&' :: cs => some (stream.getD 1, .stream, cs)
  | '>' :: cs => some (stream.getD 1, .output, cs)
  | '<' :: '>' :: cs => some (stream.getD 0, .both, cs)
  | '<' :: '&' :: cs => some (stream.getD 0, .stream, cs)
  | '<' :: '<' :: _ => none
  | '<' :: cs => some (stream.getD 0, .input, cs)
  | c :: cs =>
    match stream, Numeral.decimalDigit? c with
    | none, some n => arrow? (some n) cs
    | _, _ => none
  | [] => none

/-- The arrow of a document at the front: its stream, and whether tabs before its lines are left
out. -/
def documentArrow? (stream : Option Nat) : List Char → Option (Nat × Bool × List Char)
  | '<' :: '<' :: '-' :: cs => some (stream.getD 0, true, cs)
  | '<' :: '<' :: cs => some (stream.getD 0, false, cs)
  | c :: cs =>
    match stream, Numeral.decimalDigit? c with
    | none, some n => documentArrow? (some n) cs
    | _, _ => none
  | [] => none

structure Awaited where
  delimiter : List Char
  quoted : Bool
  withoutTabs : Bool
deriving DecidableEq, Repr, Inhabited

def isBlank (c : Char) : Bool :=
  c = ' ' || c = '\t'

def documentLines (a : Awaited) : Nat → List Char → List Char × List Char
  | 0, cs => ([], cs)
  | fuel + 1, cs =>
    let line := cs.takeWhile fun c => c ≠ '\n'
    let line := if a.withoutTabs then line.dropWhile fun c => c = '\t' else line
    let rest := cs.dropWhile fun c => c ≠ '\n'
    if cs = [] then ([], [])
    else if line = a.delimiter then ([], rest.drop 1)
    else
      let (more, after) := documentLines a fuel (rest.drop 1)
      (line ++ rest.take 1 ++ more, after)

def documentOf (a : Awaited) (line : Nat) (text : List Char) : Readable Word :=
  if a.quoted then .ok [.text true text] else documentWord line text

def documents : List Awaited → Nat → List Char → Readable (List Word × Nat × List Char)
  | [], line, cs => .ok ([], line, cs)
  | a :: more, line, cs => do
    let (text, rest) := documentLines a (cs.length + 1) cs
    let body ← documentOf a line text
    let (bodies, line, rest) ← documents more (lineAfter line cs rest) rest
    .ok (body :: bodies, line, rest)

structure Scanned where
  tokens : List Located
  documents : List Word

def Scanned.after (t : Located) (s : Scanned) : Scanned :=
  { s with tokens := t :: s.tokens }

def Scanned.ending (line : Nat) (t : Token) : Scanned := ⟨[⟨line, t⟩], []⟩

/-- The tokens of a text that begins on a line. Each turn takes a character at least, and `fuel`
bounds the turns. `last` is the last line of the script. -/
def scanTokens (last : Nat) : Nat → List Awaited → Nat → List Char → Scanned
  | 0, _, line, _ => .ending line (.sign .finish)
  | _ + 1, awaited, line, [] => { Scanned.ending line (.sign .finish) with
      documents := awaited.reverse.map fun _ => [] }
  | fuel + 1, awaited, line, c :: cs =>
    if isBlank c then scanTokens last fuel awaited line cs
    else if c = '#' then scanTokens last fuel awaited line (cs.dropWhile fun c => c ≠ '\n')
    else if c = '\\' && cs.head? = some '\n' then
      scanTokens last fuel awaited (line + 1) (cs.drop 1)
    else if c = '\n' then
      match documents awaited.reverse (line + 1) cs with
      | .error reason => .ending last (.unreadable reason)
      | .ok (bodies, next, rest) =>
        let s := scanTokens last fuel [] next rest
        { tokens := ⟨line + 1, .sign .newline⟩ :: s.tokens, documents := bodies ++ s.documents }
    else
      match documentArrow? none (c :: cs), arrow? none (c :: cs), sign? (c :: cs) with
      | some (stream, withoutTabs, rest), _, _ =>
        let rest := rest.dropWhile isBlank
        match word line rest with
        | .error reason => .ending last (.unreadable reason)
        | .ok ([], rest) => (scanTokens last fuel awaited line rest).after ⟨line, .arrow stream .input⟩
        | .ok (parts, rest) =>
          let (quoted, delimiter) := (unquoted? parts).getD (false, [])
          let a : Awaited := ⟨delimiter, quoted, withoutTabs⟩
          (scanTokens last fuel (a :: awaited) line rest).after ⟨line, .document stream []⟩
      | none, some (stream, a, rest), _ =>
        (scanTokens last fuel awaited line rest).after ⟨line, .arrow stream a⟩
      | none, none, some (s, rest) =>
        (scanTokens last fuel awaited line rest).after ⟨line, .sign s⟩
      | none, none, none =>
        match word line (c :: cs) with
        | .error reason => .ending last (.unreadable reason)
        | .ok (parts, rest) =>
          let line := lineAfter line (c :: cs) rest
          (scanTokens last fuel awaited line rest).after ⟨line, .word parts⟩

def withDocuments : List Word → List Located → List Located
  | body :: bodies, ⟨line, .document stream _⟩ :: ts =>
    ⟨line, .document stream body⟩ :: withDocuments bodies ts
  | bodies, t :: ts => t :: withDocuments bodies ts
  | _, [] => []

def tokensFrom (line : Nat) (script : List Char) : List Located :=
  let s := scanTokens (line + script.count '\n') (script.length + 1) [] line script
  withDocuments s.documents s.tokens

end ContractRegistry.Shell
