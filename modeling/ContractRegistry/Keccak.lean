/-!
The hash keccak-256.

The state is 25 words of 64 bits, five rows of five. A block of 136 bytes is mixed into the front of
it, and the permutation is applied after each block. The hash is the first 32 bytes that follow.
-/
namespace ContractRegistry.Keccak

abbrev State := Array UInt64

def lane (s : State) (column row : Nat) : UInt64 :=
  s.getD (column % 5 + 5 * (row % 5)) 0

def build (word : Nat → Nat → UInt64) : State :=
  Array.ofFn fun i : Fin 25 => word (i.val % 5) (i.val / 5)

def rotate (w : UInt64) (bits : Nat) : UInt64 :=
  if bits % 64 = 0 then w
  else (w <<< (bits % 64).toUInt64) ||| (w >>> (64 - bits % 64).toUInt64)

def theta (s : State) : State :=
  let parity column := lane s column 0 ^^^ lane s column 1 ^^^ lane s column 2 ^^^ lane s column 3 ^^^
    lane s column 4
  build fun x y => lane s x y ^^^ parity (x + 4) ^^^ rotate (parity (x + 1)) 1

/-- How far each word is turned, row after row. -/
def turns : Array Nat :=
  #[0, 1, 62, 28, 27, 36, 44, 6, 55, 20, 3, 10, 43, 25, 39, 41, 45, 15, 21, 8, 18, 2, 61, 56, 14]

def rhoPi (s : State) : State :=
  build fun x y =>
    let fromColumn := (x + 3 * y) % 5
    rotate (lane s fromColumn x) (turns.getD (fromColumn + 5 * x) 0)

def chi (s : State) : State :=
  build fun x y => lane s x y ^^^ (~~~ lane s (x + 1) y &&& lane s (x + 2) y)

def roundConstants : List UInt64 :=
  [0x0000000000000001, 0x0000000000008082, 0x800000000000808A, 0x8000000080008000,
   0x000000000000808B, 0x0000000080000001, 0x8000000080008081, 0x8000000000008009,
   0x000000000000008A, 0x0000000000000088, 0x0000000080008009, 0x000000008000000A,
   0x000000008000808B, 0x800000000000008B, 0x8000000000008089, 0x8000000000008003,
   0x8000000000008002, 0x8000000000000080, 0x000000000000800A, 0x800000008000000A,
   0x8000000080008081, 0x8000000000008080, 0x0000000080000001, 0x8000000080008008]

def iota (constant : UInt64) (s : State) : State :=
  build fun x y => if x = 0 ∧ y = 0 then lane s 0 0 ^^^ constant else lane s x y

def permute (s : State) : State :=
  roundConstants.foldl (fun s constant => iota constant (chi (rhoPi (theta s)))) s

def blockBytes : Nat := 136

def pad (message : List UInt8) : List UInt8 :=
  let room := blockBytes - message.length % blockBytes
  if room = 1 then message ++ [0x81]
  else message ++ 0x01 :: (List.replicate (room - 2) 0x00 ++ [0x80])

def wordOf (bytes : List UInt8) : UInt64 :=
  bytes.foldr (fun b w => (w <<< 8) ||| b.toUInt64) 0

def bytesOf (w : UInt64) : List UInt8 :=
  (List.range 8).map fun i => (w >>> (8 * i).toUInt64).toUInt8

def absorbBlock (s : State) (block : List UInt8) : State :=
  permute (build fun x y =>
    let i := x + 5 * y
    if i < blockBytes / 8 then lane s x y ^^^ wordOf ((block.drop (8 * i)).take 8) else lane s x y)

def absorb : Nat → State → List UInt8 → State
  | 0, s, _ => s
  | blocks + 1, s, bytes =>
    absorb blocks (absorbBlock s (bytes.take blockBytes)) (bytes.drop blockBytes)

def hash (message : List UInt8) : List UInt8 :=
  let padded := pad message
  let s := absorb (padded.length / blockBytes) (Array.replicate 25 0) padded
  (List.range 4).flatMap fun i => bytesOf (s.getD i 0)

end ContractRegistry.Keccak
