import ContractRegistry.Shell.Decimal
import ContractRegistry.Shell.Escape

/-!
Formats with percent signs in them, and values that take their places.

A format is written again and again as long as values are left. A value that is no number counts as the
number at its front, with a complaint.
-/
namespace ContractRegistry.Shell.Format

open Escape (bytesOf)

inductive Complaint where
  | notNumeric (value : String)
  | notConverted (value : String)
  | outOfRange (value : String)
deriving DecidableEq, Repr, Inhabited

inductive Failure where
  | invalidDirective (directive : String)
  | missingLetter
deriving DecidableEq, Repr, Inhabited

inductive Ending where
  | stopped
  | failed (cause : Failure)
deriving DecidableEq, Repr, Inhabited

structure Progress where
  values : List String
  parts : List (List UInt8)
  complaints : List Complaint
  ending : Option Ending
deriving DecidableEq, Repr, Inhabited

structure Spec where
  left : Bool
  zeros : Bool
  plus : Bool
  space : Bool
  alternate : Bool
  width : Nat
  precision : Option Nat
deriving DecidableEq, Repr, Inhabited

namespace Spec

def fill (s : Spec) (bytes : List UInt8) : List UInt8 :=
  let missing := List.replicate (s.width - bytes.length) 32
  if s.left then bytes ++ missing else missing ++ bytes

def fillNumber (s : Spec) (zeros : Bool) (front digits : List Char) : List UInt8 :=
  let missing := s.width - (front.length + digits.length)
  if zeros && !s.left then
    bytesOf (String.ofList (front ++ List.replicate missing '0' ++ digits))
  else s.fill (bytesOf (String.ofList (front ++ digits)))

def sign (s : Spec) (negative : Bool) : List Char :=
  if negative then ['-'] else if s.plus then ['+'] else if s.space then [' '] else []

def atLeast (s : Spec) (digits : List Char) : List Char :=
  match s.precision with
  | none => digits
  | some 0 => if digits = ['0'] then [] else digits
  | some n => List.replicate (n - digits.length) '0' ++ digits

def signed (s : Spec) (n : Int) : List UInt8 :=
  s.fillNumber (s.zeros && s.precision.isNone) (s.sign (n < 0)) (s.atLeast (toString n.natAbs).toList)

def unsigned (s : Spec) (letter : Char) (n : Int) : List UInt8 :=
  let value := Integer.bits n
  let base := if letter = 'o' then 8 else if letter = 'u' then 10 else 16
  let lower := Nat.toDigits base value
  let digits := s.atLeast (if letter = 'X' then lower.map Char.toUpper else lower)
  let digits :=
    if s.alternate && letter = 'o' && digits.head? ≠ some '0' then '0' :: digits else digits
  let front :=
    if s.alternate && base = 16 && value ≠ 0 then ['0', letter] else []
  s.fillNumber (s.zeros && s.precision.isNone) front digits

def decimal (s : Spec) (letter : Char) (n : Decimal.Signed) : List UInt8 :=
  let text := Decimal.text letter.toLower s.alternate (s.precision.getD 6) n.magnitude
  let finite := match n.magnitude with
    | .quotient _ _ => true
    | _ => false
  s.fillNumber (s.zeros && finite) (s.sign n.negative)
    (if letter.isUpper then text.map Char.toUpper else text)

def cut (s : Spec) (bytes : List UInt8) : List UInt8 :=
  match s.precision with
  | some count => bytes.take count
  | none => bytes

end Spec

namespace Progress

def write (p : Progress) (bytes : List UInt8) : Progress :=
  { p with parts := bytes :: p.parts }

def complain (p : Progress) (c : Complaint) : Progress :=
  { p with complaints := c :: p.complaints }

def next (p : Progress) : Option String × Progress :=
  (p.values.head?, { p with values := p.values.tail })

def nextInteger (isSigned : Bool) (p : Progress) : Int × Progress :=
  let (value, p) := p.next
  let value := value.getD ""
  match value.toList with
  | '"' :: _ => (((bytesOf value)[1]?).elim 0 fun b => (b.toNat : Int), p)
  | '\'' :: _ => (((bytesOf value)[1]?).elim 0 fun b => (b.toNat : Int), p)
  | cs =>
    match Integer.leading? true cs with
    | none => (0, if value = "" then p else p.complain (.notNumeric value))
    | some (n, rest) =>
      let top : Int := if isSigned then Integer.largest else Numeral.limit64 - 1
      let bottom : Int := if isSigned then Integer.smallest else 1 - Numeral.limit64
      let kept := if n > top then top else if n < bottom then (if isSigned then bottom else top) else n
      (kept,
        if rest ≠ [] then p.complain (.notConverted value)
        else if kept ≠ n then p.complain (.outOfRange value)
        else p)

def nextDecimal (p : Progress) : Decimal.Signed × Progress :=
  let (value, p) := p.next
  let value := value.getD ""
  match value.toList with
  | '"' :: _ => (⟨false, .quotient (((bytesOf value)[1]?).elim 0 UInt8.toNat) 1⟩, p)
  | '\'' :: _ => (⟨false, .quotient (((bytesOf value)[1]?).elim 0 UInt8.toNat) 1⟩, p)
  | cs =>
    match Decimal.leading? cs with
    | none => (⟨false, .quotient 0 1⟩, if value = "" then p else p.complain (.notNumeric value))
    | some (n, rest) => (n, if rest ≠ [] then p.complain (.notConverted value) else p)

end Progress

def isFlag (c : Char) : Bool :=
  ['-', '0', '+', ' ', '#'].contains c

def columns (cs : List Char) (p : Progress) : Option Int × List Char × Progress :=
  match cs with
  | '*' :: rest =>
    let (n, p) := p.nextInteger true
    (some n, rest, p)
  | cs =>
    match Integer.inBase? 10 Numeral.decimalDigit? cs with
    | some (n, rest) => (some n, rest, p)
    | none => (none, cs, p)

def spec (cs : List Char) (p : Progress) : Spec × List Char × Progress :=
  let flags := cs.takeWhile isFlag
  let (width, rest, p) := columns (cs.dropWhile isFlag) p
  let width := width.getD 0
  let make (precision : Option Nat) : Spec :=
    ⟨flags.contains '-' || width < 0, flags.contains '0', flags.contains '+', flags.contains ' ',
      flags.contains '#', width.natAbs, precision⟩
  match rest with
  | '.' :: rest =>
    let (precision, rest, p) := columns rest p
    let precision := precision.getD 0
    (make (if precision < 0 then none else some precision.toNat), rest, p)
  | rest => (make none, rest, p)

def signedLetters : List Char := ['d', 'i']

def unsignedLetters : List Char := ['o', 'u', 'x', 'X']

def decimalLetters : List Char := ['e', 'E', 'f', 'F', 'g', 'G']

/-- Writes a value by its conversion. There is none for other letters. -/
def convert (wide : Bool) (s : Spec) (letter : Char) (p : Progress) : Option Progress :=
  if letter = 's' then
    let (value, p) := p.next
    some (p.write (s.fill (s.cut (bytesOf (value.getD "")))))
  else if letter = 'b' then
    let (value, p) := p.next
    let w := Escape.unescape wide (value.getD "")
    let p := p.write (s.fill (s.cut w.bytes))
    some (if w.stopped then { p with ending := some .stopped } else p)
  else if letter = 'c' then
    let (value, p) := p.next
    some (p.write (s.fill (((bytesOf (value.getD "")) ++ [0]).take 1)))
  else if signedLetters.contains letter then
    let (n, p) := p.nextInteger true
    some (p.write (s.signed n))
  else if unsignedLetters.contains letter then
    let (n, p) := p.nextInteger false
    some (p.write (s.unsigned letter n))
  else if decimalLetters.contains letter then
    let (n, p) := p.nextDecimal
    some (p.write (s.decimal letter n))
  else none

/-- Writes a format once. Each turn takes a character at least, and `fuel` bounds the turns. -/
def once (wide : Bool) : Nat → List Char → Progress → Progress
  | 0, _, p => p
  | _ + 1, [], p => p
  | fuel + 1, '\\' :: cs, p =>
    if wide && cs.head? = some 'c' then { p with ending := some .stopped }
    else
      let (bytes, rest) := Escape.escape wide cs
      once wide fuel rest (p.write bytes)
  | fuel + 1, '%' :: '%' :: cs, p => once wide fuel cs (p.write [37])
  | fuel + 1, '%' :: cs, p =>
    let (s, rest, p) := spec cs p
    match rest with
    | [] => { p with ending := some (.failed .missingLetter) }
    | letter :: rest =>
      match convert wide s letter p with
      | none =>
        let directive := '%' :: cs.take (cs.length - rest.length)
        { p with ending := some (.failed (.invalidDirective (String.ofList directive))) }
      | some p => if p.ending.isSome then p else once wide fuel rest p
  | fuel + 1, c :: cs, p => once wide fuel cs (p.write (Text.Utf8.encodeChar c))

def again (wide : Bool) (format : List Char) : Nat → Progress → Progress
  | 0, p => p
  | turns + 1, p =>
    let q := once wide (format.length + 1) format p
    if q.ending.isSome || q.values = [] || q.values.length = p.values.length then q
    else again wide format turns q

def printf (wide : Bool) (format : String) (values : List String) : Progress :=
  again wide format.toList (values.length + 1) ⟨values, [], [], none⟩

def Progress.bytes (p : Progress) : List UInt8 :=
  p.parts.reverse.flatten

end ContractRegistry.Shell.Format
