import ContractRegistry.Shell.Integer
import ContractRegistry.Text.Utf8

/-!
Text with backslashes in it, as it is written to a stream.

A backslash makes a byte of letters and digits behind it. There are two sets of such letters, and only the
wide one has hexadecimal digits.
-/
namespace ContractRegistry.Shell.Escape

structure Written where
  bytes : List UInt8
  stopped : Bool
deriving DecidableEq, Repr, Inhabited

def Written.after (first : List UInt8) (w : Written) : Written :=
  { w with bytes := first ++ w.bytes }

def bytesOf (text : String) : List UInt8 :=
  Text.Utf8.encode text.toList

def byte (base : Nat) (digit? : Char → Option Nat) : Nat → Nat → List Char → UInt8 × List Char
  | count + 1, n, c :: cs =>
    match digit? c with
    | some d => byte base digit? count (n * base + d) cs
    | none => (n.toUInt8, c :: cs)
  | _, n, cs => (n.toUInt8, cs)

def letterByte? : Char → Option UInt8
  | 'a' => some 7
  | 'b' => some 8
  | 't' => some 9
  | 'n' => some 10
  | 'v' => some 11
  | 'f' => some 12
  | 'r' => some 13
  | 'e' => some 27
  | '\\' => some 92
  | _ => none

def isOctal (c : Char) : Bool :=
  (Integer.octalDigit? c).isSome

def isHexadecimal : List Char → Bool
  | 'x' :: c :: _ => (Numeral.hexDigit? c).isSome
  | _ => false

/-- What a backslash and the text behind it are. Before other characters it is itself. -/
def escape (wide : Bool) : List Char → List UInt8 × List Char
  | [] => ([92], [])
  | c :: cs =>
    if isOctal c then
      let (b, rest) := byte 8 Integer.octalDigit? 3 0 (c :: cs)
      ([b], rest)
    else if wide && isHexadecimal (c :: cs) then
      let (b, rest) := byte 16 Numeral.hexDigit? 2 0 cs
      ([b], rest)
    else
      match letterByte? c with
      | some b => ([b], cs)
      | none => ([92], c :: cs)

/-- Text in which `\0` may stand before three octal digits, and `\c` stops the writing. Each turn
takes a character, and `fuel` bounds the turns. -/
def unescapeWithin (wide : Bool) : Nat → List Char → Written
  | 0, _ => ⟨[], false⟩
  | _ + 1, [] => ⟨[], false⟩
  | _ + 1, '\\' :: 'c' :: _ => ⟨[], true⟩
  | fuel + 1, '\\' :: '0' :: cs =>
    let (b, rest) := byte 8 Integer.octalDigit? 3 0 cs
    (unescapeWithin wide fuel rest).after [b]
  | fuel + 1, '\\' :: cs =>
    let (bytes, rest) := escape wide cs
    (unescapeWithin wide fuel rest).after bytes
  | fuel + 1, c :: cs => (unescapeWithin wide fuel cs).after (Text.Utf8.encodeChar c)

def unescape (wide : Bool) (text : String) : Written :=
  unescapeWithin wide (text.length + 1) text.toList

end ContractRegistry.Shell.Escape
