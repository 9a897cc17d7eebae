/-!
UTF-8: characters as bytes and bytes as characters.

A sequence of bytes is cut into *pieces*. A piece is a character, or a longest run of bytes that
begins a character and cannot go on to complete one (one byte, where no character begins at all).
Cutting loses nothing. A strict reader refuses a sequence with such a stray run, a lenient one puts
one replacement character in its place.
-/
namespace ContractRegistry.Text.Utf8

inductive Piece where
  | char (c : Char)
  | stray (bytes : List UInt8)
deriving DecidableEq, Repr, Inhabited

def Piece.char? : Piece → Option Char
  | .char c => some c
  | .stray _ => none

def encodeChar (c : Char) : List UInt8 :=
  let n := c.toNat
  if n < 0x80 then
    [n.toUInt8]
  else if n < 0x800 then
    [(0xC0 + n / 64).toUInt8, (0x80 + n % 64).toUInt8]
  else if n < 0x10000 then
    [(0xE0 + n / 4096).toUInt8, (0x80 + n / 64 % 64).toUInt8, (0x80 + n % 64).toUInt8]
  else
    [(0xF0 + n / 262144).toUInt8, (0x80 + n / 4096 % 64).toUInt8, (0x80 + n / 64 % 64).toUInt8,
      (0x80 + n % 64).toUInt8]

def encode (cs : List Char) : List UInt8 :=
  cs.flatMap encodeChar

/-- What a leading byte announces: its own bits, how many bytes follow it, and the range of the
first of them. The range leaves out overlong forms, surrogates and what lies above U+10FFFF. -/
structure Lead where
  bits : Nat
  following : Nat
  low : Nat
  high : Nat

def lead? (b : UInt8) : Option Lead :=
  let n := b.toNat
  if 0xC2 ≤ n ∧ n ≤ 0xDF then some ⟨n - 0xC0, 1, 0x80, 0xBF⟩
  else if n = 0xE0 then some ⟨0, 2, 0xA0, 0xBF⟩
  else if n = 0xED then some ⟨0xD, 2, 0x80, 0x9F⟩
  else if 0xE1 ≤ n ∧ n ≤ 0xEF then some ⟨n - 0xE0, 2, 0x80, 0xBF⟩
  else if n = 0xF0 then some ⟨0, 3, 0x90, 0xBF⟩
  else if n = 0xF4 then some ⟨4, 3, 0x80, 0x8F⟩
  else if 0xF1 ≤ n ∧ n ≤ 0xF3 then some ⟨n - 0xF0, 3, 0x80, 0xBF⟩
  else none

/-- A character that has begun: its bytes so far (last first), the value of their bits, how many
bytes are still owed, and the range of the next. -/
structure Pending where
  seen : List UInt8
  value : Nat
  owed : Nat
  low : Nat
  high : Nat

/-- Reads a byte between characters: the piece it is by itself, or the character it begins. -/
def begin (b : UInt8) : List Piece × Option Pending :=
  if b.toNat < 0x80 then
    ([.char (Char.ofNat b.toNat)], none)
  else
    match lead? b with
    | some l => ([], some ⟨[b], l.bits, l.following, l.low, l.high⟩)
    | none => ([.stray [b]], none)

/-- Reads a byte. One that does not continue the pending character closes it as a stray run and
begins afresh. -/
def step : Option Pending → UInt8 → List Piece × Option Pending
  | none, b => begin b
  | some p, b =>
    if p.low ≤ b.toNat ∧ b.toNat ≤ p.high then
      let value := p.value * 64 + (b.toNat - 0x80)
      if p.owed ≤ 1 then
        ([.char (Char.ofNat value)], none)
      else
        ([], some ⟨b :: p.seen, value, p.owed - 1, 0x80, 0xBF⟩)
    else
      let (closed, next) := begin b
      (.stray p.seen.reverse :: closed, next)

def cut : Option Pending → List UInt8 → List Piece
  | none, [] => []
  | some p, [] => [.stray p.seen.reverse]
  | pending, b :: bs => (step pending b).1 ++ cut (step pending b).2 bs

def pieces (bytes : List UInt8) : List Piece :=
  cut none bytes

def decode? (bytes : List UInt8) : Option (List Char) :=
  (pieces bytes).mapM Piece.char?

def replacement : Char := '\uFFFD'

def decodeLossy (bytes : List UInt8) : List Char :=
  (pieces bytes).map fun p => p.char?.getD replacement

end ContractRegistry.Text.Utf8
