import ContractRegistry.FileTree

/-!
Patterns: stars, question marks and sets in brackets, for texts and for the names of files.
-/
namespace ContractRegistry.Shell

/-- A character of an expanded word. A quoted one stands for itself in patterns. -/
structure Letter where
  quoted : Bool
  char : Char
deriving DecidableEq, Repr, Inhabited

namespace Pattern

inductive Range where
  | between (first last : Char)
  | named (name : String)
deriving DecidableEq, Repr, Inhabited

inductive Step where
  | exactly (c : Char)
  | anyOne
  | anyMany
  | oneOf (negated : Bool) (ranges : List Range)
deriving DecidableEq, Repr, Inhabited

def isInk (c : Char) : Bool :=
  '!' ≤ c && c ≤ '~'

def isIn (name : String) (c : Char) : Bool :=
  match name with
  | "alpha" => c.isAlpha
  | "digit" => c.isDigit
  | "alnum" => c.isAlphanum
  | "upper" => c.isUpper
  | "lower" => c.isLower
  | "space" => c = ' ' || ('\t' ≤ c && c ≤ '\r')
  | "blank" => c = ' ' || c = '\t'
  | "punct" => isInk c && !c.isAlphanum
  | "print" => c = ' ' || isInk c
  | "graph" => isInk c
  | "cntrl" => c < ' ' || c = '\x7f'
  | "xdigit" => c.isDigit || ('a' ≤ c && c ≤ 'f') || ('A' ≤ c && c ≤ 'F')
  | _ => false

def classNames : List String :=
  ["alpha", "digit", "alnum", "upper", "lower", "space", "blank", "punct", "print", "graph", "cntrl",
    "xdigit"]

def Range.has (c : Char) : Range → Bool
  | .between first last => first ≤ c && c ≤ last
  | .named name => isIn name c

def Step.takes (c : Char) : Step → Bool
  | .exactly d => c = d
  | .anyOne => true
  | .anyMany => true
  | .oneOf negated ranges => (ranges.any fun r => r.has c) != negated

def isSign (c : Char) (l : Letter) : Bool :=
  !l.quoted && l.char = c

def class? (ls : List Letter) : Option (String × List Letter) :=
  match ls with
  | ⟨false, '['⟩ :: ⟨false, ':'⟩ :: rest =>
    let name := String.ofList ((rest.takeWhile fun l => l.char.isLower).map Letter.char)
    match rest.dropWhile fun l => l.char.isLower with
    | ⟨false, ':'⟩ :: ⟨false, ']'⟩ :: rest =>
      if classNames.contains name then some (name, rest) else none
    | _ => none
  | _ => none

/-- The ranges up to the closing bracket, which is no bracket when nothing stands before it. -/
def ranges? : Nat → Bool → List Letter → Option (List Range × List Letter)
  | 0, _, _ => none
  | _ + 1, _, [] => none
  | fuel + 1, isFirst, l :: ls =>
    if isSign ']' l && !isFirst then some ([], ls)
    else
      match class? (l :: ls) with
      | some (name, rest) => do
        let (ranges, rest) ← ranges? fuel false rest
        some (.named name :: ranges, rest)
      | none =>
        match ls with
        | ⟨false, '-'⟩ :: last :: rest =>
          if isSign ']' last then do
            let (ranges, rest) ← ranges? fuel false ls
            some (.between l.char l.char :: ranges, rest)
          else do
            let (ranges, rest) ← ranges? fuel false rest
            some (.between l.char last.char :: ranges, rest)
        | ls => do
          let (ranges, rest) ← ranges? fuel false ls
          some (.between l.char l.char :: ranges, rest)

def set? (ls : List Letter) : Option (Step × List Letter) :=
  let negated := (ls.head?.map (isSign '!')).getD false
  let inner := if negated then ls.drop 1 else ls
  (ranges? (inner.length + 1) true inner).map fun (ranges, rest) => (.oneOf negated ranges, rest)

/-- The steps of letters. Each turn takes a letter at least, and `fuel` bounds the turns. -/
def steps : Nat → List Letter → List Step
  | 0, _ => []
  | _ + 1, [] => []
  | fuel + 1, l :: ls =>
    if isSign '*' l then .anyMany :: steps fuel ls
    else if isSign '?' l then .anyOne :: steps fuel ls
    else if isSign '[' l then
      match set? ls with
      | some (set, rest) => set :: steps fuel rest
      | none => .exactly '[' :: steps fuel ls
    else .exactly l.char :: steps fuel ls

/-- The bytes of a text, each as the character with its number. A pattern goes by bytes. -/
def bytesIn (cs : List Char) : List Char :=
  (Text.Utf8.encode cs).map fun b => Char.ofNat b.toNat

def textOfBytes (cs : List Char) : List Char :=
  Text.Utf8.decodeLossy (cs.map fun c => c.toNat.toUInt8)

def ofLetters (ls : List Letter) : List Step :=
  let bytes := ls.flatMap fun l => (bytesIn [l.char]).map fun c => ⟨l.quoted, c⟩
  steps (bytes.length + 1) bytes

def anyEnd (p : List Char → Bool) : List Char → Bool
  | [] => p []
  | c :: cs => p (c :: cs) || anyEnd p cs

def fits : List Step → List Char → Bool
  | [], cs => cs = []
  | .anyMany :: ss, cs => anyEnd (fits ss) cs
  | s :: ss, c :: cs => s.takes c && fits ss cs
  | _ :: _, [] => false

def fitsText (ss : List Step) (cs : List Char) : Bool :=
  fits ss (bytesIn cs)

def withoutStart (longest : Bool) (ss : List Step) (cs : List Char) : List Char :=
  let bytes := bytesIn cs
  let lengths := List.range (bytes.length + 1)
  match (if longest then lengths.reverse else lengths).find? fun n => fits ss (bytes.take n) with
  | some n => textOfBytes (bytes.drop n)
  | none => cs

def withoutEnd (longest : Bool) (ss : List Step) (cs : List Char) : List Char :=
  let bytes := bytesIn cs
  let lengths := List.range (bytes.length + 1)
  match (if longest then lengths else lengths.reverse).find? fun n => fits ss (bytes.drop n) with
  | some n => textOfBytes (bytes.take n)
  | none => cs

def isPattern (ls : List Letter) : Bool :=
  (ofLetters ls).any fun
    | .exactly _ => false
    | _ => true

def text (ls : List Letter) : List Char :=
  ls.map Letter.char

def namesIn (t : FileTree) (path : String) : List String :=
  match t.locate (if path = "" then "." else path) with
  | .ok place => if t.entry? place = some .directory then "." :: ".." :: t.names place else []
  | .error _ => []

/-- Whether a name fits a pattern. A dot in front has to be written. -/
def fitsName (ls : List Letter) (name : String) : Bool :=
  let dotted (cs : List Char) : Bool := cs.head? = some '.'
  (!dotted name.toList || dotted (text ls)) && fitsText (ofLetters ls) name.toList

def pathsFrom (t : FileTree) : String → List (List Letter) → List String
  | path, [] => if (t.find path).isOk then [path] else []
  | path, part :: parts =>
    let ending := if parts = [] then "" else "/"
    if isPattern part then
      ((namesIn t path).filter (fitsName part)).flatMap fun name =>
        pathsFrom t (path ++ name ++ ending) parts
    else pathsFrom t (path ++ String.ofList (text part) ++ ending) parts

def pathParts (ls : List Letter) : List (List Letter) :=
  ls.splitOnP fun l => l.char = '/'

def paths (t : FileTree) (ls : List Letter) : List String :=
  if isPattern ls then
    (pathsFrom t "" (pathParts ls)).mergeSort fun a b => decide (a ≤ b)
  else []

end Pattern

end ContractRegistry.Shell
