import ContractRegistry.Tool.Outcome

/-!
Tools that change lines: those of files, or those of the input.
-/
namespace ContractRegistry.Tool

open Shell.Escape (bytesOf)

def closed (line : List UInt8) : List UInt8 :=
  withoutBreak line ++ [Backfill.lineFeed]

def numbered (bytes : List UInt8) : List UInt8 :=
  ((Backfill.lines bytes).zipIdx 1).flatMap fun (line, n) =>
    let digits := (toString n).toList
    bytesOf (String.ofList (List.replicate (6 - digits.length) ' ' ++ digits ++ ['\t'])) ++ line

def cat (t : Task) : Outcome :=
  t.withOptions ['n', 'u'] fun letters paths =>
    t.through paths (if letters.contains 'n' then numbered else id)

structure Amount where
  bytes : Bool
  sign : Option Char
  count : Nat
deriving DecidableEq, Repr, Inhabited

def amount? (bytes : Bool) (text : String) : Option Amount :=
  let digits? (cs : List Char) : Option Nat := Numeral.ofDigits? 10 Numeral.decimalDigit? cs
  match text.toList with
  | '-' :: cs => (digits? cs).map fun n => ⟨bytes, some '-', n⟩
  | '+' :: cs => (digits? cs).map fun n => ⟨bytes, some '+', n⟩
  | cs => (digits? cs).map fun n => ⟨bytes, none, n⟩

def amountOptions (a : Amount) : List String → Except (Bool × String) (Amount × List String)
  | [] => .ok (a, [])
  | argument :: rest =>
    let read (bytes : Bool) (text : String) : Except (Bool × String) Amount :=
      match amount? bytes text with
      | some a => .ok a
      | none => .error (bytes, text)
    match argument.toList, rest with
    | ['-', 'n'], text :: rest => do amountOptions (← read false text) rest
    | ['-', 'c'], text :: rest => do amountOptions (← read true text) rest
    | '-' :: 'n' :: c :: cs, rest => do amountOptions (← read false (String.ofList (c :: cs))) rest
    | '-' :: 'c' :: c :: cs, rest => do amountOptions (← read true (String.ofList (c :: cs))) rest
    | '-' :: c :: cs, rest =>
      if c.isDigit then do
        amountOptions { (← read false (String.ofList (c :: cs))) with sign := none } rest
      else .ok (a, argument :: rest)
    | _, rest => .ok (a, argument :: rest)

def Amount.on (a : Amount) (f : {α : Type} → List α → List α) (bytes : List UInt8) : List UInt8 :=
  if a.bytes then f bytes else (f (Backfill.lines bytes)).flatten

def start (a : Amount) (bytes : List UInt8) : List UInt8 :=
  if a.sign = some '-' then a.on (fun xs => xs.take (xs.length - a.count)) bytes
  else a.on (fun xs => xs.take a.count) bytes

def finish (a : Amount) (bytes : List UInt8) : List UInt8 :=
  if a.sign = some '+' then a.on (fun xs => xs.drop (a.count - 1)) bytes
  else a.on (fun xs => xs.drop (xs.length - a.count)) bytes

def partly (t : Task) (part : Amount → List UInt8 → List UInt8) : Outcome :=
  match amountOptions ⟨false, none, 10⟩ t.arguments with
  | .error (bytes, text) =>
    t.refuse ("invalid number of " ++ (if bytes then "bytes" else "lines") ++ ": " ++ quoted text) 1
  | .ok (a, paths) =>
    let paths := if paths = [] then ["-"] else paths
    let pieces : List Piece := (paths.zipIdx).map fun (path, i) =>
      let title := if path = "-" then "standard input" else path
      let heading := if paths.length < 2 then ""
        else (if i = 0 then "" else "\n") ++ "==> " ++ title ++ " <==\n"
      match t.read path with
      | .ok bytes => .output (bytesOf heading ++ part a bytes)
      | .error .isDirectory => t.complaint ("error reading " ++ quoted path ++ ": Is a directory")
      | .error e => t.complaint ("cannot open " ++ quoted path ++ " for reading: " ++ e.reason)
    { pieces
      status := if paths.all fun path => (t.read path).isOk then 0 else 1
      taken := if paths.contains "-" then t.input.length else 0
      files := t.files }

def head (t : Task) : Outcome := partly t start

def tail (t : Task) : Outcome := partly t finish

def isBlankByte (b : UInt8) : Bool :=
  b = 32 || (9 ≤ b && b ≤ 13)

def wordCount : Bool → List UInt8 → Nat
  | _, [] => 0
  | inside, b :: bs =>
    if isBlankByte b then wordCount false bs
    else (if inside then 0 else 1) + wordCount true bs

/-- The counts that are asked for: lines, words and bytes. A character is a byte. -/
def counts (letters : List Char) (bytes : List UInt8) : List Nat :=
  let letters := if letters = [] then ['l', 'w', 'c'] else letters
  let count (c : Char) (n : List UInt8 → Nat) : List Nat :=
    if letters.contains c then [n bytes] else []
  count 'l' (fun bytes => bytes.count Backfill.lineFeed) ++ count 'w' (wordCount false) ++
    count 'm' List.length ++ count 'c' List.length

def countLine (width : Nat) (ns : List Nat) (name : String) : String :=
  let column (n : Nat) : String :=
    let digits := (toString n).toList
    String.ofList (List.replicate (width - digits.length) ' ' ++ digits)
  " ".intercalate (ns.map column) ++ (if name = "" then "" else " " ++ name)

def wc (t : Task) : Outcome :=
  t.withOptions ['l', 'w', 'm', 'c'] fun letters paths =>
    let named := paths ≠ []
    let paths := if named then paths else ["-"]
    let read := paths.filterMap fun path => (t.read path).toOption
    let total := read.foldl (fun n bytes => n + bytes.length) 0
    let single := paths.length = 1 && (counts letters []).length = 1
    let width :=
      if single then 1
      else if paths.contains "-" || read.length < paths.length then 7
      else (toString total).length
    let line (path : String) : Piece :=
      match t.read path with
      | .ok bytes =>
        .output (linesOf [countLine width (counts letters bytes) (if named then path else "")])
      | .error e => t.complaint (path ++ ": " ++ e.reason)
    let sum : List Piece :=
      if paths.length < 2 then []
      else [.output (linesOf [countLine width (counts letters read.flatten) "total"])]
    { pieces := paths.map line ++ sum
      status := if read.length = paths.length then 0 else 1
      taken := if paths.contains "-" then t.input.length else 0
      files := t.files }

def precedes (a b : List UInt8) : Bool :=
  match a, b with
  | [], _ => true
  | _ :: _, [] => false
  | x :: xs, y :: ys => x < y || (x = y && precedes xs ys)

def leadingNumber (line : List UInt8) : Int :=
  ((Shell.Integer.leading? false (Text.Utf8.decodeLossy line)).map Prod.fst).getD 0

def withoutRepeats (same : List UInt8 → List UInt8 → Bool) : List (List UInt8) → List (List UInt8)
  | a :: b :: rest =>
    if same a b then withoutRepeats same (a :: rest) else a :: withoutRepeats same (b :: rest)
  | rest => rest
termination_by lines => lines.length

def sort (t : Task) : Outcome :=
  t.withOptions ['n', 'r', 'u'] fun letters paths =>
    let numeric := letters.contains 'n'
    let before (a b : List UInt8) : Bool :=
      if numeric && leadingNumber a ≠ leadingNumber b then leadingNumber a < leadingNumber b
      else (numeric && letters.contains 'u') || precedes a b
    let order (a b : List UInt8) : Bool := if letters.contains 'r' then before b a else before a b
    let same (a b : List UInt8) : Bool :=
      if numeric then leadingNumber a = leadingNumber b else a = b
    t.through paths fun bytes =>
      let lines := ((Backfill.lines bytes).map closed).mergeSort order
      (if letters.contains 'u' then withoutRepeats same lines else lines).flatten

def runs : List (List UInt8) → List (List UInt8 × Nat)
  | [] => []
  | a :: rest =>
    match runs rest with
    | (b, n) :: more => if a = b then (b, n + 1) :: more else (a, 1) :: (b, n) :: more
    | [] => [(a, 1)]

def uniq (t : Task) : Outcome :=
  t.withOptions ['c', 'd', 'u'] fun letters paths =>
    t.through paths fun bytes =>
      let kept (n : Nat) : Bool :=
        if letters.contains 'd' then 1 < n else if letters.contains 'u' then n = 1 else true
      (runs ((Backfill.lines bytes).map closed)).flatMap fun (line, n) =>
        let digits := (toString n).toList
        let front := String.ofList (List.replicate (7 - digits.length) ' ' ++ digits ++ [' '])
        if kept n then (if letters.contains 'c' then bytesOf front else []) ++ line else []

def rev (t : Task) : Outcome :=
  t.through t.arguments fun bytes =>
    (Backfill.lines bytes).flatMap fun line =>
      Text.Utf8.encode (Text.Utf8.decodeLossy (withoutBreak line)).reverse ++
        line.filter fun b => b = Backfill.lineFeed

def byteSet : Nat → List Char → List UInt8
  | 0, _ => []
  | _ + 1, [] => []
  | fuel + 1, '[' :: ':' :: cs =>
    let name := String.ofList (cs.takeWhile Char.isLower)
    let test : Char → Bool := match name with
      | "upper" => Char.isUpper
      | "lower" => Char.isLower
      | "digit" => Char.isDigit
      | "alpha" => Char.isAlpha
      | "alnum" => Char.isAlphanum
      | "space" => fun c => c = ' ' || ('\t' ≤ c && c ≤ '\r')
      | _ => fun _ => false
    (((List.range 256).map Char.ofNat).filter test).map (fun c => c.toNat.toUInt8) ++
      byteSet fuel ((cs.dropWhile Char.isLower).drop 2)
  | fuel + 1, '\\' :: cs =>
    let (bytes, rest) := Shell.Escape.escape false cs
    bytes ++ byteSet fuel rest
  | fuel + 1, c :: '-' :: d :: cs =>
    (List.range (d.toNat + 1 - c.toNat)).map (fun i => (c.toNat + i).toUInt8) ++ byteSet fuel cs
  | fuel + 1, c :: cs => Text.Utf8.encodeChar c ++ byteSet fuel cs

def squeeze (set : List UInt8) : List UInt8 → List UInt8
  | a :: b :: rest =>
    if a = b && set.contains a then squeeze set (a :: rest) else a :: squeeze set (b :: rest)
  | rest => rest
termination_by bytes => bytes.length

def tr (t : Task) : Outcome :=
  t.withOptions ['d', 's', 'c', 'C'] fun letters sets =>
    let set (text : String) : List UInt8 := byteSet (text.length + 1) text.toList
    let first := set (sets.headD "")
    let first :=
      if letters.contains 'c' || letters.contains 'C' then
        ((List.range 256).map Nat.toUInt8).filter fun b => !first.contains b
      else first
    let second := set (sets.getD 1 "")
    let exchanged (b : UInt8) : UInt8 :=
      match first.findIdx? fun a => a = b with
      | some i => (second[i]?).getD (second.getLastD b)
      | none => b
    let result :=
      if letters.contains 'd' then t.input.filter fun b => !first.contains b
      else if letters.contains 's' && sets.length < 2 then squeeze first t.input
      else if letters.contains 's' then squeeze second (t.input.map exchanged)
      else t.input.map exchanged
    match sets with
    | [] => t.misuse "missing operand"
    | _ => { pieces := [.output result], status := 0, taken := t.input.length, files := t.files }

end ContractRegistry.Tool
