import ContractRegistry.Json.Number
import ContractRegistry.Text.Utf8

/-!
The shape of a JSON text and its meaning.

Reading a text goes in two steps. The first finds the shape: brackets, members, literals, and strings
and numerals as they are written. The second, here, gives the shape its meaning. A part that nobody
asks for is never given a meaning, so that only its shape has to be right: its nesting has no limit,
its numerals may be beyond all doubles, and its strings may hold half a surrogate pair or bytes that
are no text.
-/
namespace ContractRegistry.Json

open Text.Utf8 (Piece)

inductive Tree where
  | null
  | bool (truth : Bool)
  | number (numeral : Numeral)
  | string (content : List Piece)
  | array (items : List Tree)
  | object (members : List (List Piece × Tree))
deriving Repr, Inhabited

namespace Tree

def hexDigit? : Piece → Option Nat
  | .char c => ContractRegistry.Numeral.hexDigit? c
  | .stray _ => none

def unit (a b c d : Piece) : Nat :=
  let digit p := (hexDigit? p).getD 0
  ((digit a * 16 + digit b) * 16 + digit c) * 16 + digit d

def shortEscape : Char → Char
  | 'b' => '\x08'
  | 'f' => '\x0c'
  | 'n' => '\n'
  | 'r' => '\r'
  | 't' => '\t'
  | c => c

/-- The text that a string means. Two escaped halves of a surrogate pair are one character, half a
pair is none, and stray bytes are no text. -/
def text? : List Piece → Option (List Char)
  | .char '\\' :: .char 'u' :: a :: b :: c :: d :: rest =>
    let high := unit a b c d
    if high < 0xD800 ∨ 0xDFFF < high then do
      let cs ← text? rest
      some (Char.ofNat high :: cs)
    else
      match rest with
      | .char '\\' :: .char 'u' :: a :: b :: c :: d :: rest =>
        let low := unit a b c d
        if high < 0xDC00 ∧ 0xDC00 ≤ low ∧ low ≤ 0xDFFF then do
          let cs ← text? rest
          some (Char.ofNat (0x10000 + (high - 0xD800) * 0x400 + (low - 0xDC00)) :: cs)
        else none
      | _ => none
  | .char '\\' :: .char e :: rest => do
    let cs ← text? rest
    some (shortEscape e :: cs)
  | .char c :: rest => do
    let cs ← text? rest
    some (c :: cs)
  | .stray _ :: _ => none
  | [] => some []

def contentText? (content : List Piece) : Option String :=
  (text? content).map String.ofList

mutual

/-- The value of a shape that nests arrays and objects at most `depth` deep. Members are sorted by
name, and of several with one name the last counts. -/
def value? (depth : Nat) : Tree → Option Value
  | .null => some .null
  | .bool truth => some (.bool truth)
  | .number n => n.number?.map .number
  | .string content => (contentText? content).map .string
  | .array items =>
    match depth with
    | 0 => none
    | depth + 1 => (values? depth items).map .array
  | .object members =>
    match depth with
    | 0 => none
    | depth + 1 => (memberValues? depth members).map fun ms => .object (sortMembers ms)

def values? (depth : Nat) : List Tree → Option (List Value)
  | [] => some []
  | t :: ts => do
    let v ← value? depth t
    let vs ← values? depth ts
    some (v :: vs)

def memberValues? (depth : Nat) : List (List Piece × Tree) → Option (List (String × Value))
  | [] => some []
  | (key, t) :: ts => do
    let name ← contentText? key
    let v ← value? depth t
    let vs ← memberValues? depth ts
    some ((name, v) :: vs)

end

end Tree

def depthLimit : Nat := 127

def piecesOf (text : String) : List Piece :=
  text.toList.map .char

end ContractRegistry.Json
