import ContractRegistry.Source.Error
import ContractRegistry.Text.Blank

/-!
Tokens of Solidity source.

A scanner reads one character after the other. It closes a token when the next character does not
belong to it, so that every token is as long as it can be. Blanks and comments leave no token.
-/
namespace ContractRegistry.Source

/-- What a token is. The contents of string literals are not kept. -/
inductive TokenKind where
  | word (text : String)
  | number (text : String)
  | string
  | arrow
  | punct (c : Char)
deriving DecidableEq, Repr, Inhabited

structure Token where
  kind : TokenKind
  line : Nat
deriving DecidableEq, Repr, Inhabited

namespace TokenKind

def describe : TokenKind → String
  | .word text => text
  | .number text => text
  | .string => "string literal"
  | .arrow => "=>"
  | .punct c => String.singleton c

end TokenKind

def isWordStart (c : Char) : Bool :=
  ('a' ≤ c && c ≤ 'z') || ('A' ≤ c && c ≤ 'Z') || c = '_' || c = '$'

def isDigit (c : Char) : Bool :=
  '0' ≤ c && c ≤ '9'

def isWordChar (c : Char) : Bool :=
  isWordStart c || isDigit c

def isNumberChar (c : Char) : Bool :=
  isDigit c || ('a' ≤ c && c ≤ 'z') || ('A' ≤ c && c ≤ 'Z') || c = '_' || c = '.'

/-- What the scanner is in. Texts have the last character first. -/
inductive Mode where
  | blank
  | word (text : List Char)
  | number (text : List Char)
  /-- A slash, which may begin a comment. -/
  | slash
  /-- An equals sign, which may begin an arrow. -/
  | equals
  | lineComment
  /-- A block comment, and whether the last character was a star. -/
  | blockComment (star : Bool)
  /-- A string literal with its quote, and whether the last character was a backslash. -/
  | string (quote : Char) (escaped : Bool)
deriving DecidableEq, Repr, Inhabited

/-- The scanner between two characters: its mode, the line, the line on which the open token or
comment begins, and the closed tokens, last first. -/
structure Scanner where
  mode : Mode
  line : Nat
  start : Nat
  tokens : List Token
deriving DecidableEq, Repr, Inhabited

namespace Scanner

def initial : Scanner := ⟨.blank, 1, 1, []⟩

def emit (s : Scanner) (kind : TokenKind) : Scanner :=
  { s with mode := .blank, tokens := ⟨kind, s.start⟩ :: s.tokens }

def flush (s : Scanner) : Scanner :=
  match s.mode with
  | .word text => s.emit (.word (String.ofList text.reverse))
  | .number text => s.emit (.number (String.ofList text.reverse))
  | .slash => s.emit (.punct '/')
  | .equals => s.emit (.punct '=')
  | _ => s

def begin (s : Scanner) (c : Char) : Scanner :=
  let s := { s with start := s.line }
  if Text.isBlank c then { s with mode := .blank }
  else if isWordStart c then { s with mode := .word [c] }
  else if isDigit c then { s with mode := .number [c] }
  else if c = '"' ∨ c = '\'' then { s with mode := .string c false }
  else if c = '/' then { s with mode := .slash }
  else if c = '=' then { s with mode := .equals }
  else s.emit (.punct c)

def read (s : Scanner) (c : Char) : Except SourceError Scanner :=
  match s.mode with
  | .blank => .ok (s.begin c)
  | .word text =>
    if isWordChar c then .ok { s with mode := .word (c :: text) } else .ok (s.flush.begin c)
  | .number text =>
    if isNumberChar c then .ok { s with mode := .number (c :: text) } else .ok (s.flush.begin c)
  | .slash =>
    if c = '/' then .ok { s with mode := .lineComment }
    else if c = '*' then .ok { s with mode := .blockComment false }
    else .ok (s.flush.begin c)
  | .equals => if c = '>' then .ok (s.emit .arrow) else .ok (s.flush.begin c)
  | .lineComment => .ok (if c = '\n' then { s with mode := .blank } else s)
  | .blockComment star =>
    .ok { s with mode := if star && c = '/' then .blank else .blockComment (c = '*') }
  | .string quote escaped =>
    if c = '\n' then .error (.unterminatedString s.start)
    else if escaped then .ok { s with mode := .string quote false }
    else if c = quote then .ok (s.emit .string)
    else .ok { s with mode := .string quote (c = '\\') }

def step (s : Scanner) (c : Char) : Except SourceError Scanner := do
  let s ← s.read c
  .ok (if c = '\n' then { s with line := s.line + 1 } else s)

def finish (s : Scanner) : Except SourceError (List Token) :=
  match s.mode with
  | .blockComment _ => .error (.unterminatedComment s.start)
  | .string _ _ => .error (.unterminatedString s.start)
  | _ => .ok s.flush.tokens.reverse

end Scanner

def tokenize (source : List Char) : Except SourceError (List Token) := do
  let s ← source.foldlM Scanner.step .initial
  s.finish

end ContractRegistry.Source
