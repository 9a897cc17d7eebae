import ContractRegistry.Shell.Token

/-!
The commands of a script.

Some words are reserved where a command begins. Every function here takes the tokens that it can use
from the front and returns the others. Each call has less fuel than its caller, and twelve calls lie
between two tokens at most.
-/
namespace ContractRegistry.Shell

structure Refusal where
  line : Nat
  reason : String
deriving DecidableEq, Repr, Inhabited

abbrev Parsed := Except Refusal

def reservedWords : List String :=
  ["!", "case", "do", "done", "elif", "else", "esac", "fi", "for", "if", "in", "then", "until",
    "while", "\x7b", "\x7d"]

def closingWords : List String :=
  ["do", "done", "elif", "else", "esac", "fi", "then", "\x7d"]

namespace Token

def reserved? : Token → Option String
  | .word parts =>
    match (literal? parts).map String.ofList with
    | some text => if reservedWords.contains text then some text else none
    | none => none
  | _ => none

def name (t : Token) (reserved : Bool) : String :=
  match t with
  | .word _ =>
    match reserved, t.reserved? with
    | true, some text => "\"" ++ text ++ "\""
    | _, _ => "word"
  | .arrow _ _ => "redirection"
  | .document _ _ => "redirection"
  | .sign s => s.name
  | .unreadable reason => reason

def endsList : Token → Bool
  | .sign .finish => true
  | .sign .closing => true
  | .sign .caseEnd => true
  | t => (t.reserved?.map closingWords.contains).getD false

end Token

def peek : List Located → Located
  | [] => ⟨0, .sign .finish⟩
  | t :: _ => t

/-- What stands behind the token at the front. The end of a script stays. -/
def advance : List Located → List Located
  | t :: [] => [t]
  | _ :: ts => ts
  | [] => []

def unexpected (reserved : Bool) (expected : Option String) (ts : List Located) : Refusal :=
  let t := peek ts
  match t.token with
  | .unreadable reason => ⟨t.line, "Syntax error: " ++ reason⟩
  | _ =>
    let suffix := match expected with
      | some name => " (expecting " ++ name ++ ")"
      | none => ""
    ⟨t.line, "Syntax error: " ++ t.token.name reserved ++ " unexpected" ++ suffix⟩

def skipNewlines : List Located → List Located
  | ⟨line, .sign .newline⟩ :: ts =>
    match ts with
    | [] => [⟨line, .sign .newline⟩]
    | ts => skipNewlines ts
  | ts => ts

def expectWord (text : String) (ts : List Located) : Parsed (List Located) :=
  if (peek ts).token.reserved? = some text then .ok (advance ts)
  else .error (unexpected true (some ("\"" ++ text ++ "\"")) ts)

def expectSign (s : Sign) (ts : List Located) : Parsed (List Located) :=
  if (peek ts).token = .sign s then .ok (advance ts)
  else .error (unexpected true (some s.name) ts)

def expectAnyWord (ts : List Located) : Parsed (Word × List Located) :=
  match (peek ts).token with
  | .word parts => .ok (parts, advance ts)
  | _ => .error (unexpected false none ts)

def assignment? : Word → Option (String × Word)
  | .text false cs :: parts =>
    let name := cs.takeWhile fun c => c ≠ '='
    match cs.dropWhile fun c => c ≠ '=' with
    | _ :: value =>
      if isName name then
        some (String.ofList name, if value = [] then parts else .text false value :: parts)
      else none
    | [] => none
  | _ => none

def Arrow.target (a : Arrow) (w : Word) : Target :=
  match a with
  | .input => .input w
  | .output => .output w
  | .replacement => .replacement w
  | .appended => .appended w
  | .both => .both w
  | .stream => .stream w

def redirection? (ts : List Located) : Parsed (Option (Redirection × List Located)) :=
  match (peek ts).token with
  | .arrow stream a => do
    let (w, ts) ← expectAnyWord (advance ts)
    .ok (some (⟨stream, a.target w⟩, ts))
  | .document stream body => .ok (some (⟨stream, .document body⟩, advance ts))
  | _ => .ok none

def redirections : Nat → List Located → Parsed (List Redirection × List Located)
  | 0, ts => .ok ([], ts)
  | fuel + 1, ts => do
    match ← redirection? ts with
    | none => .ok ([], ts)
    | some (r, ts) =>
      let (rs, ts) ← redirections fuel ts
      .ok (r :: rs, ts)

def withRedirections (c : Command) (line : Nat) (ts : List Located) :
    Parsed (Command × List Located) := do
  match ← redirections ts.length ts with
  | ([], ts) => .ok (c, ts)
  | (rs, ts) => .ok (.redirected line rs c, ts)

def specialNames : List String :=
  ["break", ":", ".", "continue", "eval", "exec", "exit", "export", "local", "readonly", "return",
    "set", "shift", "times", "trap", "unset"]

def definesFunction (p : Simple) : Option Word :=
  match p.assignments, p.words, p.redirections with
  | [], [w], [] => some w
  | _, _, _ => none

def functionName? (w : Word) : Option String := do
  let name ← literal? w
  if isName name && !specialNames.contains (String.ofList name) then some (String.ofList name)
  else none

def takeSimple : Nat → Simple → List Located → Parsed (Simple × List Located)
  | 0, p, ts => .ok (p, ts)
  | fuel + 1, p, ts => do
    match (peek ts).token, ← redirection? ts with
    | _, some (r, ts) => takeSimple fuel { p with redirections := p.redirections ++ [r] } ts
    | .word w, none =>
      match p.words, assignment? w with
      | [], some a => takeSimple fuel { p with assignments := p.assignments ++ [a] } (advance ts)
      | _, _ => takeSimple fuel { p with words := p.words ++ [w] } (advance ts)
    | _, none => .ok (p, ts)

def takeWords : List Located → List Word × List Located
  | ⟨_, .word w⟩ :: ts =>
    let (ws, ts) := takeWords ts
    (w :: ws, ts)
  | ts => ([], ts)

def eachWords (ts : List Located) : Parsed (List Word × List Located) :=
  let (words, ts) := takeWords ts
  match (peek ts).token with
  | .sign .newline => .ok (words, advance ts)
  | .sign .semicolon => .ok (words, advance ts)
  | _ => .error (unexpected false none ts)

def eachHead (ts : List Located) : Parsed (String × Option (List Word) × List Located) := do
  let t := peek ts
  let name ← match t.token with
    | .word w =>
      match literal? w with
      | some name =>
        if isName name then .ok (String.ofList name)
        else .error ⟨t.line, "Syntax error: Bad for loop variable"⟩
      | none => .error ⟨t.line, "Syntax error: Bad for loop variable"⟩
    | .unreadable _ => .error (unexpected false none ts)
    | _ => .error ⟨t.line, "Syntax error: Bad for loop variable"⟩
  let ts := skipNewlines (advance ts)
  if (peek ts).token.reserved? = some "in" then
    let (words, ts) ← eachWords (advance ts)
    .ok (name, some words, ts)
  else .ok (name, none, if (peek ts).token = .sign .semicolon then advance ts else ts)

def casePatterns : Nat → List Located → Parsed (List Word × List Located)
  | 0, ts => .ok ([], ts)
  | fuel + 1, ts => do
    let w := match (peek ts).token with
      | .word w => w
      | _ => []
    match (peek (advance ts)).token with
    | .sign .pipe =>
      let (ws, ts) ← casePatterns fuel (advance (advance ts))
      .ok (w :: ws, ts)
    | _ => .ok ([w], ← expectSign .closing (advance ts))

inductive Extent where
  /-- One line of a script. -/
  | line
  /-- Between words that belong together, with one command at least. -/
  | block
  /-- The same, with no command perhaps. -/
  | perhaps
deriving DecidableEq, Repr, Inhabited

def append (sofar : Option Command) (c : Command) : Command :=
  match sofar with
  | none => c
  | some first => .sequence first c

mutual

def list : Nat → Extent → Option Command → List Located → Parsed (Command × List Located)
  | 0, _, sofar, ts => .ok (sofar.getD .nothing, ts)
  | fuel + 1, extent, sofar, ts => do
    let ts := if extent = .line then ts else skipNewlines ts
    let t := (peek ts).token
    if t = .sign .finish then .ok (sofar.getD .nothing, ts)
    else if t = .sign .newline then .ok (sofar.getD .nothing, advance ts)
    else if extent = .perhaps && t.endsList then .ok (sofar.getD .nothing, ts)
    else
      let extent := if extent = .line then Extent.line else .perhaps
      let (c, ts) ← chain fuel ts
      match (peek ts).token with
      | .sign .background =>
        list fuel extent (some (append sofar (.background c))) (advance ts)
      | .sign .semicolon => list fuel extent (some (append sofar c)) (advance ts)
      | .sign .newline => list fuel extent (some (append sofar c)) ts
      | .sign .finish => .ok (append sofar c, ts)
      | _ =>
        if extent = .line then .error (unexpected true none ts) else .ok (append sofar c, ts)

def chain : Nat → List Located → Parsed (Command × List Located)
  | 0, ts => .ok (.nothing, ts)
  | fuel + 1, ts => do
    let (first, ts) ← pipeline fuel ts
    chainFrom fuel first ts

def chainFrom : Nat → Command → List Located → Parsed (Command × List Located)
  | 0, first, ts => .ok (first, ts)
  | fuel + 1, first, ts =>
    match (peek ts).token with
    | .sign .both => do
      let (second, ts) ← pipeline fuel (skipNewlines (advance ts))
      chainFrom fuel (.both first second) ts
    | .sign .either => do
      let (second, ts) ← pipeline fuel (skipNewlines (advance ts))
      chainFrom fuel (.either first second) ts
    | _ => .ok (first, ts)

def pipeline : Nat → List Located → Parsed (Command × List Located)
  | 0, ts => .ok (.nothing, ts)
  | fuel + 1, ts => do
    if (peek ts).token.reserved? = some "!" then
      let (c, ts) ← pipes fuel (advance ts)
      .ok (.negation c, ts)
    else pipes fuel ts

def pipes : Nat → List Located → Parsed (Command × List Located)
  | 0, ts => .ok (.nothing, ts)
  | fuel + 1, ts => do
    let (first, ts) ← command fuel ts
    match (peek ts).token with
    | .sign .pipe =>
      let (second, ts) ← pipes fuel (skipNewlines (advance ts))
      .ok (.pipe first second, ts)
    | _ => .ok (first, ts)

def command : Nat → List Located → Parsed (Command × List Located)
  | 0, ts => .ok (.nothing, ts)
  | fuel + 1, ts => do
    let line := (peek ts).line
    match (peek ts).token, (peek ts).token.reserved? with
    | .sign .opening, _ => do
      let (body, ts) ← list fuel .block none (advance ts)
      withRedirections (.subshell line body) line (← expectSign .closing ts)
    | _, some "\x7b" => do
      let (body, ts) ← list fuel .block none (advance ts)
      withRedirections body line (← expectWord "\x7d" ts)
    | _, some "if" => do
      let (c, ts) ← branch fuel (advance ts)
      withRedirections c line ts
    | _, some "while" => do
      let (c, ts) ← loop fuel false (advance ts)
      withRedirections c line ts
    | _, some "until" => do
      let (c, ts) ← loop fuel true (advance ts)
      withRedirections c line ts
    | _, some "for" => do
      let (name, words, ts) ← eachHead (advance ts)
      let (body, ts) ← block fuel (skipNewlines ts)
      withRedirections (.each line name words body) line ts
    | _, some "case" => do
      let (subject, ts) ← match (peek (advance ts)).token with
        | .word w => .ok (w, advance (advance ts))
        | _ => .error (unexpected false (some "word") (advance ts))
      let ts ← expectWord "in" (skipNewlines ts)
      let (cases, ts) ← cases fuel (skipNewlines ts)
      withRedirections (.choice line subject cases) line ts
    | .word _, none => simple fuel line ts
    | .arrow _ _, _ => simple fuel line ts
    | .document _ _, _ => simple fuel line ts
    | _, _ => .error (unexpected true none ts)

def simple : Nat → Nat → List Located → Parsed (Command × List Located)
  | 0, _, ts => .ok (.nothing, ts)
  | fuel + 1, line, ts => do
    let (p, ts) ← takeSimple ts.length ⟨line, [], [], []⟩ ts
    match (peek ts).token, definesFunction p with
    | .sign .opening, some w =>
      let ts ← if (peek (advance ts)).token = .sign .closing then .ok (advance (advance ts))
        else .error (unexpected false (some "\")\"") (advance ts))
      match functionName? w with
      | none => .error ⟨(peek ts).line, "Syntax error: Bad function name"⟩
      | some name =>
        let (body, ts) ← command fuel (skipNewlines ts)
        .ok (.definition line name body, ts)
    | _, _ => .ok (.simple p, ts)

def branch : Nat → List Located → Parsed (Command × List Located)
  | 0, ts => .ok (.nothing, ts)
  | fuel + 1, ts => do
    let (condition, ts) ← list fuel .block none ts
    let (positive, ts) ← list fuel .block none (← expectWord "then" ts)
    match (peek ts).token.reserved? with
    | some "elif" =>
      let (negative, ts) ← branch fuel (advance ts)
      .ok (.branch condition positive negative, ts)
    | some "else" =>
      let (negative, ts) ← list fuel .block none (advance ts)
      .ok (.branch condition positive negative, ← expectWord "fi" ts)
    | _ => .ok (.branch condition positive .nothing, ← expectWord "fi" ts)

def loop : Nat → Bool → List Located → Parsed (Command × List Located)
  | 0, _, ts => .ok (.nothing, ts)
  | fuel + 1, untilIt, ts => do
    let (condition, ts) ← list fuel .block none ts
    let (body, ts) ← block fuel ts
    .ok (.loop untilIt condition body, ts)

def block : Nat → List Located → Parsed (Command × List Located)
  | 0, ts => .ok (.nothing, ts)
  | fuel + 1, ts => do
    let (body, ts) ← list fuel .block none (← expectWord "do" ts)
    .ok (body, ← expectWord "done" ts)

def cases : Nat → List Located → Parsed (Command × List Located)
  | 0, ts => .ok (.nothing, ts)
  | fuel + 1, ts => do
    if (peek ts).token.reserved? = some "esac" then .ok (.nothing, advance ts)
    else
      let ts := if (peek ts).token = .sign .opening then advance ts else ts
      let (patterns, ts) ← casePatterns ts.length ts
      let (body, ts) ← list fuel .perhaps none ts
      let ts := skipNewlines ts
      match (peek ts).token, (peek ts).token.reserved? with
      | .sign .caseEnd, _ =>
        let (others, ts) ← cases fuel (skipNewlines (advance ts))
        .ok (.case patterns body others, ts)
      | _, some "esac" => .ok (.case patterns body .nothing, advance ts)
      | _, _ => .error (unexpected true (some Sign.caseEnd.name) ts)

end

/-- Takes the commands of the next line of a script; nothing when the script is at its end. -/
def nextLine (ts : List Located) : Parsed (Option (Command × List Located)) :=
  match (peek ts).token with
  | .sign .finish => .ok none
  | .sign .newline => .ok (some (.nothing, advance ts))
  | _ => do .ok (some (← list (12 * ts.length + 12) .line none ts))

end ContractRegistry.Shell
