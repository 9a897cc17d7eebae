import ContractRegistry.Numeral
import ContractRegistry.Shell.Script

/-!
Words as they are written: quotes, backslashes, and what a dollar sign asks for.

A quote, a brace and a parenthesis must be closed. What stands between is found first, by a scan that
knows which of them are open, and read afterwards.
-/
namespace ContractRegistry.Shell

abbrev Readable (α : Type) := Except String α

def isNameStart (c : Char) : Bool :=
  c.isAlpha || c = '_'

def isNameChar (c : Char) : Bool :=
  isNameStart c || c.isDigit

def isName : List Char → Bool
  | [] => false
  | c :: cs => isNameStart c && cs.all isNameChar

def endsWord (c : Char) : Bool :=
  [' ', '\t', '\n', ';', '&', '|', '(', ')', '<', '>'].contains c

def backquote : Char := '\x60'

/-- What may be open. Inside double quotes a single quote is a character in braces. -/
inductive Opened where
  | single
  | double
  | script
  | arithmetic
  | group
  | braces (quoted : Bool)
  | backquote
deriving DecidableEq, Repr, Inhabited

namespace Opened

def complaint : Opened → String
  | .single => "Unterminated quoted string"
  | .double => "Unterminated quoted string"
  | .script => "end of file unexpected (expecting \")\")"
  | .arithmetic => "Missing '))'"
  | .group => "Missing '))'"
  | .braces _ => "Missing '\x7d'"
  | .backquote => "EOF in backquote substitution"

def hasEscapes : Opened → Bool
  | .single => false
  | _ => true

def closes (o : Opened) (c : Char) : Bool :=
  match o with
  | .single => c = '\''
  | .double => c = '"'
  | .script => c = ')'
  | .arithmetic => false
  | .group => c = ')'
  | .braces _ => c = '\x7d'
  | .backquote => c = Shell.backquote

def opens? (o : Opened) (c : Char) : Option Opened :=
  match o with
  | .single => none
  | .backquote => none
  | .double => if c = Shell.backquote then some .backquote else none
  | .script =>
    if c = '(' then some .script
    else if c = '\'' then some .single
    else if c = '"' then some .double
    else if c = Shell.backquote then some .backquote
    else none
  | .braces quoted =>
    if c = '"' then some .double
    else if c = '\'' && !quoted then some .single
    else if c = Shell.backquote then some .backquote
    else none
  | _ =>
    if c = '(' then some .group
    else if c = Shell.backquote then some .backquote
    else none

def hasDollars : Opened → Bool
  | .single => false
  | .backquote => false
  | _ => true

def innerBraces : Opened → Opened
  | .double => .braces true
  | .braces quoted => .braces quoted
  | _ => .braces false

end Opened

def prepend (text : List Char) (r : Readable (List Char × List Char)) :
    Readable (List Char × List Char) := do
  let (inner, rest) ← r
  .ok (text ++ inner, rest)

/-- The text up to where the last of the open things is closed, and the text behind that. -/
def scan : List Opened → List Char → Readable (List Char × List Char)
  | [], cs => .ok ([], cs)
  | o :: _, [] => .error o.complaint
  | o :: outer, c :: cs =>
    let closing (text : List Char) : List Char := if outer.isEmpty then [] else text
    match c, cs with
    | '\\', d :: cs =>
      if o.hasEscapes then prepend ['\\', d] (scan (o :: outer) cs)
      else prepend ['\\'] (if d = '\'' then prepend (closing [d]) (scan outer cs)
        else prepend [d] (scan (o :: outer) cs))
    | ')', ')' :: cs =>
      if o = .arithmetic then prepend (closing [')', ')']) (scan outer cs)
      else if o.closes ')' then prepend (closing [')']) (scan outer (')' :: cs))
      else prepend [')'] (scan (o :: outer) (')' :: cs))
    | '$', '(' :: '(' :: cs =>
      if o.hasDollars then prepend ['$', '(', '('] (scan (.arithmetic :: o :: outer) cs)
      else prepend ['$', '(', '('] (scan (o :: outer) cs)
    | '$', '(' :: cs =>
      if o.hasDollars then prepend ['$', '('] (scan (.script :: o :: outer) cs)
      else prepend ['$', '('] (scan (o :: outer) cs)
    | '$', '\x7b' :: cs =>
      if o.hasDollars then prepend ['$', '\x7b'] (scan (o.innerBraces :: o :: outer) cs)
      else prepend ['$', '\x7b'] (scan (o :: outer) cs)
    | c, cs =>
      if o.closes c then prepend (closing [c]) (scan outer cs)
      else
        match o.opens? c with
        | some inner => prepend [c] (scan (inner :: o :: outer) cs)
        | none => prepend [c] (scan (o :: outer) cs)
termination_by structural _ cs => cs

def parameter? (cs : List Char) : Option Parameter :=
  match cs with
  | ['@'] => some .arguments
  | ['*'] => some .joined
  | ['#'] => some .argumentCount
  | ['?'] => some .status
  | ['$'] => some .process
  | ['!'] => some .lastProcess
  | ['-'] => some .options
  | _ =>
    if isName cs then some (.variable (String.ofList cs))
    else (Numeral.ofDigits? 10 Numeral.decimalDigit? cs).map .argument

def splitName : List Char → List Char × List Char
  | [] => ([], [])
  | c :: cs =>
    if isNameStart c then (c :: cs.takeWhile isNameChar, cs.dropWhile isNameChar)
    else if c.isDigit then (c :: cs.takeWhile Char.isDigit, cs.dropWhile Char.isDigit)
    else ([c], cs)

def use? : List Char → Option Use
  | [] => some .plain
  | ':' :: '-' :: text => some (.fallback true text)
  | ':' :: '=' :: text => some (.assignment true text)
  | ':' :: '?' :: text => some (.required true text)
  | ':' :: '+' :: text => some (.replacement true text)
  | '-' :: text => some (.fallback false text)
  | '=' :: text => some (.assignment false text)
  | '?' :: text => some (.required false text)
  | '+' :: text => some (.replacement false text)
  | '%' :: '%' :: text => some (.withoutEnd true text)
  | '%' :: text => some (.withoutEnd false text)
  | '#' :: '#' :: text => some (.withoutStart true text)
  | '#' :: text => some (.withoutStart false text)
  | _ => none

def bracedPart (quoted : Bool) (inner : List Char) : Part :=
  let length? : Option Parameter := match inner with
    | '#' :: name => parameter? name
    | _ => none
  match length? with
  | some p => .parameter quoted p .length
  | none =>
    let (name, operator) := splitName inner
    match parameter? name, use? operator with
    | some p, some use => .parameter quoted p use
    | _, _ => .broken

/-- What a dollar sign and the text behind it are. A dollar sign before anything else is itself. -/
def dollarPart (quoted : Bool) (line : Nat) : List Char → Readable (Part × List Char)
  | '(' :: '(' :: cs => do
    let (inner, rest) ← scan [.arithmetic] cs
    .ok (.arithmetic quoted inner, rest)
  | '(' :: cs => do
    let (inner, rest) ← scan [.script] cs
    .ok (.output quoted line inner, rest)
  | '\x7b' :: cs => do
    let (inner, rest) ← scan [.braces quoted] cs
    .ok (bracedPart quoted inner, rest)
  | c :: cs =>
    if isNameStart c then
      .ok (.parameter quoted (.variable (String.ofList (c :: cs.takeWhile isNameChar))) .plain,
        cs.dropWhile isNameChar)
    else
      match parameter? [c] with
      | some p => .ok (.parameter quoted p .plain, cs)
      | none => .ok (.text quoted ['$'], c :: cs)
  | [] => .ok (.text quoted ['$'], [])

def unescapedScript : List Char → List Char
  | '\\' :: c :: cs =>
    if c = '\\' || c = '$' || c = backquote then c :: unescapedScript cs
    else '\\' :: c :: unescapedScript cs
  | c :: cs => c :: unescapedScript cs
  | [] => []

def backquotedPart (quoted : Bool) (cs : List Char) : Readable (Part × List Char) := do
  let (inner, rest) ← scan [.backquote] cs
  .ok (.output quoted 1 (unescapedScript inner), rest)

def lineAfter (line : Nat) (cs rest : List Char) : Nat :=
  line + (cs.take (cs.length - rest.length)).count '\n'

inductive Place where
  /-- Between double quotes, up to the second one. -/
  | quotes
  /-- In lines that are given to a command. -/
  | document
  /-- In braces or parentheses that are quoted themselves. -/
  | inner
deriving DecidableEq, Repr, Inhabited

def isEscapable (place : Place) (c : Char) : Bool :=
  c = '\\' || c = '$' || c = backquote || (c = '"' && place ≠ .document) ||
    (c = '\x7d' && place = .inner)

def isPlain (c : Char) : Bool :=
  !(['"', '\'', '\\', '$', backquote].contains c)

def before (first : Word) (r : Readable (Word × List Char)) : Readable (Word × List Char) := do
  let (parts, rest) ← r
  .ok (first ++ parts, rest)

/-- The parts of quoted text. Each turn takes a character at least, and `fuel` bounds the turns. -/
def quotedParts (place : Place) : Nat → Nat → List Char → Readable (Word × List Char)
  | 0, _, _ => .error "out of reach"
  | _ + 1, _, [] =>
    if place = .quotes then .error Opened.double.complaint else .ok ([], [])
  | fuel + 1, line, c :: cs =>
    if c = '"' && place = .quotes then .ok ([], cs)
    else if c = '"' && place = .inner then quotedParts place fuel line cs
    else if c = '$' then do
      let (part, rest) ← dollarPart true line cs
      before [part] (quotedParts place fuel (lineAfter line cs rest) rest)
    else if c = backquote then do
      let (part, rest) ← backquotedPart true cs
      before [part] (quotedParts place fuel (lineAfter line cs rest) rest)
    else
      match c, cs with
      | '\\', '\n' :: cs => quotedParts place fuel (line + 1) cs
      | '\\', e :: cs =>
        before [.text true (if isEscapable place e then [e] else ['\\', e])]
          (quotedParts place fuel line cs)
      | c, cs =>
        let text := c :: cs.takeWhile isPlain
        let rest := cs.dropWhile isPlain
        before [.text true text] (quotedParts place fuel (line + text.count '\n') rest)

def plainParts (endsAt : Char → Bool) : Nat → Nat → List Char → Readable (Word × List Char)
  | 0, _, _ => .error "out of reach"
  | _ + 1, _, [] => .ok ([], [])
  | fuel + 1, line, c :: cs =>
    if endsAt c then .ok ([], c :: cs)
    else
      match c, cs with
      | '\'', cs => do
        let (inner, rest) ← scan [.single] cs
        before [.text true inner] (plainParts endsAt fuel (lineAfter line cs rest) rest)
      | '"', cs => do
        let (parts, rest) ← quotedParts .quotes (cs.length + 1) line cs
        before (if parts = [] then [.text true []] else parts)
          (plainParts endsAt fuel (lineAfter line cs rest) rest)
      | '$', cs => do
        let (part, rest) ← dollarPart false line cs
        before [part] (plainParts endsAt fuel (lineAfter line cs rest) rest)
      | '\x60', cs => do
        let (part, rest) ← backquotedPart false cs
        before [part] (plainParts endsAt fuel (lineAfter line cs rest) rest)
      | '\\', '\n' :: cs => plainParts endsAt fuel (line + 1) cs
      | '\\', e :: cs => before [.text true [e]] (plainParts endsAt fuel line cs)
      | c, cs =>
        let goesOn (c : Char) : Bool := isPlain c && !endsAt c
        before [.text false (c :: cs.takeWhile goesOn)]
          (plainParts endsAt fuel (line + (cs.takeWhile goesOn).count '\n')
            (cs.dropWhile goesOn))

def word (line : Nat) (cs : List Char) : Readable (Word × List Char) :=
  plainParts endsWord (cs.length + 1) line cs

def wholeWord (quoted : Bool) (cs : List Char) : Readable Word := do
  let (parts, _) ←
    if quoted then quotedParts .inner (cs.length + 1) 1 cs
    else plainParts (fun _ => false) (cs.length + 1) 1 cs
  .ok parts

def documentWord (line : Nat) (cs : List Char) : Readable Word := do
  let (parts, _) ← quotedParts .document (cs.length + 1) line cs
  .ok parts

def literal? : Word → Option (List Char)
  | [] => some []
  | .text false cs :: parts => do some (cs ++ (← literal? parts))
  | _ => none

def unquoted? : Word → Option (Bool × List Char)
  | [] => some (false, [])
  | .text q cs :: parts => do
    let (quoted, rest) ← unquoted? parts
    some (q || quoted, cs ++ rest)
  | _ => none

end ContractRegistry.Shell
