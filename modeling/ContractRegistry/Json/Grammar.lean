import ContractRegistry.Json.Tree

/-!
Finding the shape of a JSON text.
-/
namespace ContractRegistry.Json

open Text.Utf8 (Piece)

namespace Grammar

abbrev Reader (α : Type) := List Piece → Option (α × List Piece)

def isSpace : Piece → Bool
  | .char c => c = ' ' || c = '\t' || c = '\n' || c = '\r'
  | .stray _ => false

def skipSpace (ps : List Piece) : List Piece :=
  ps.dropWhile isSpace

def isShortEscape (c : Char) : Bool :=
  c = '"' || c = '\\' || c = '/' || c = 'b' || c = 'f' || c = 'n' || c = 'r' || c = 't'

def isPlain : Piece → Bool
  | .char c => 0x20 ≤ c.toNat
  | .stray _ => true

def string : Reader (List Piece)
  | .char '"' :: rest => some ([], rest)
  | .char '\\' :: .char 'u' :: a :: b :: c :: d :: rest => do
    let _ ← Tree.hexDigit? a
    let _ ← Tree.hexDigit? b
    let _ ← Tree.hexDigit? c
    let _ ← Tree.hexDigit? d
    let (content, rest) ← string rest
    some (.char '\\' :: .char 'u' :: a :: b :: c :: d :: content, rest)
  | .char '\\' :: .char e :: rest => do
    guard (isShortEscape e)
    let (content, rest) ← string rest
    some (.char '\\' :: .char e :: content, rest)
  | .char '\\' :: _ => none
  | p :: rest => do
    guard (isPlain p)
    let (content, rest) ← string rest
    some (p :: content, rest)
  | [] => none

def digit? : Piece → Option Nat
  | .char c => ContractRegistry.Numeral.decimalDigit? c
  | .stray _ => none

def digits : List Piece → List Nat × List Piece
  | [] => ([], [])
  | p :: rest =>
    match digit? p with
    | some d => let (ds, rest) := digits rest; (d :: ds, rest)
    | none => ([], p :: rest)

def someDigits : Reader (List Nat) := fun ps =>
  match digits ps with
  | ([], _) => none
  | (ds, rest) => some (ds, rest)

/-- Reads the digits before the point. A leading zero stands alone. -/
def whole : Reader (List Nat)
  | .char '0' :: rest => some ([0], rest)
  | ps => someDigits ps

def fraction : Reader (List Nat)
  | .char '.' :: rest => someDigits rest
  | ps => some ([], ps)

/-- Reads an exponent after its mark: the sign, true for minus, and the digits. -/
def exponentDigits : Reader (Bool × List Nat)
  | .char '-' :: rest => do let (ds, rest) ← someDigits rest; some ((true, ds), rest)
  | .char '+' :: rest => do let (ds, rest) ← someDigits rest; some ((false, ds), rest)
  | ps => do let (ds, rest) ← someDigits ps; some ((false, ds), rest)

def exponent : Reader (Option (Bool × List Nat))
  | .char 'e' :: rest => do let (e, rest) ← exponentDigits rest; some (some e, rest)
  | .char 'E' :: rest => do let (e, rest) ← exponentDigits rest; some (some e, rest)
  | ps => some (none, ps)

def unsigned (negative : Bool) : Reader Numeral := fun ps => do
  let (whole, ps) ← whole ps
  let (fraction, ps) ← fraction ps
  let (exponent, ps) ← exponent ps
  some (⟨negative, whole, fraction, exponent⟩, ps)

def numeral : Reader Numeral
  | .char '-' :: rest => unsigned true rest
  | ps => unsigned false ps

def word (w : List Char) (tree : Tree) : Reader Tree := fun ps =>
  if (w.map Piece.char).isPrefixOf ps then some (tree, ps.drop w.length) else none

mutual

/-- Reads a value. The first argument bounds the number of steps. -/
def value : Nat → Reader Tree
  | 0, _ => none
  | steps + 1, ps =>
    match skipSpace ps with
    | .char 'n' :: rest => word "ull".toList .null rest
    | .char 't' :: rest => word "rue".toList (.bool true) rest
    | .char 'f' :: rest => word "alse".toList (.bool false) rest
    | .char '"' :: rest => do
      let (content, rest) ← string rest
      some (.string content, rest)
    | .char '[' :: rest =>
      match skipSpace rest with
      | .char ']' :: rest => some (.array [], rest)
      | rest => do
        let (items, rest) ← items steps rest
        some (.array items, rest)
    | .char '\x7b' :: rest =>
      match skipSpace rest with
      | .char '\x7d' :: rest => some (.object [], rest)
      | rest => do
        let (members, rest) ← members steps rest
        some (.object members, rest)
    | ps => do
      let (n, rest) ← numeral ps
      some (.number n, rest)

def items : Nat → Reader (List Tree)
  | 0, _ => none
  | steps + 1, ps => do
    let (item, rest) ← value steps ps
    match skipSpace rest with
    | .char ']' :: rest => some ([item], rest)
    | .char ',' :: rest =>
      let (more, rest) ← items steps rest
      some (item :: more, rest)
    | _ => none

def members : Nat → Reader (List (List Piece × Tree))
  | 0, _ => none
  | steps + 1, ps =>
    match skipSpace ps with
    | .char '"' :: rest => do
      let (key, rest) ← string rest
      match skipSpace rest with
      | .char ':' :: rest =>
        let (item, rest) ← value steps rest
        match skipSpace rest with
        | .char '\x7d' :: rest => some ([(key, item)], rest)
        | .char ',' :: rest =>
          let (more, rest) ← members steps rest
          some ((key, item) :: more, rest)
        | _ => none
      | _ => none
    | _ => none

end

/-- Steps enough for a text: no two in a row take no piece of it. -/
def stepsFor (ps : List Piece) : Nat :=
  2 * ps.length + 2

def document? (ps : List Piece) : Option Tree := do
  let (tree, rest) ← value (stepsFor ps) ps
  if skipSpace rest = [] then some tree else none

end Grammar

def Value.ofText? (text : String) : Option Value := do
  let tree ← Grammar.document? (piecesOf text)
  tree.value? depthLimit

end ContractRegistry.Json
