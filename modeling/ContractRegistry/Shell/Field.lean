import ContractRegistry.Shell.Pattern

/-!
Fields: the words that the text of an expanded word falls apart into.

Only text that comes from a value falls apart, at the separators that are set. A run of blank separators
counts as one, with one other separator in it perhaps; any other separator ends a field, even an empty
one.
-/
namespace ContractRegistry.Shell

inductive Atom where
  /-- A letter, which may be a separator or not. -/
  | letter (separable : Bool) (l : Letter)
  /-- Something quoted, which is a field even when nothing else is. -/
  | mark
  /-- The gap between two arguments that stay as they are. -/
  | gap
deriving DecidableEq, Repr, Inhabited

namespace Atom

/-- The separator between arguments that fall apart. No text has this character in it. -/
def argumentEnd : Char := '\x00'

def fixed (cs : List Char) : List Atom :=
  .mark :: cs.map fun c => .letter false ⟨true, c⟩

/-- Text that is written without quotes. In a value it falls apart. -/
def written (separable : Bool) (cs : List Char) : List Atom :=
  cs.map fun c => .letter separable ⟨false, c⟩

def ofValue (quoted : Bool) (cs : List Char) : List Atom :=
  if quoted then fixed cs else written true cs

def letters (atoms : List Atom) : List Letter :=
  atoms.flatMap fun
    | .letter _ l => [l]
    | .mark => []
    | .gap => [⟨true, ' '⟩]

def text (atoms : List Atom) : List Char :=
  (letters atoms).map Letter.char

end Atom

structure OpenField where
  letters : List Letter
  started : Bool
deriving DecidableEq, Repr, Inhabited

namespace OpenField

def fresh : OpenField := ⟨[], false⟩

def closed (f : OpenField) : List Letter := f.letters.reverse

def push (f : OpenField) (l : Letter) : OpenField := ⟨l :: f.letters, true⟩

end OpenField

inductive Skipping where
  | nothing
  | blanks
  /-- Blanks with one other separator among them. -/
  | blanksAndOne
deriving DecidableEq, Repr, Inhabited

def isBlankSeparator (c : Char) : Bool :=
  c = ' ' || c = '\t' || c = '\n' || c = Atom.argumentEnd

def fieldsFrom (separators : List Char) : OpenField → Skipping → List Atom → List (List Letter)
  | f, _, [] => if f.started then [f.closed] else []
  | f, _, .gap :: atoms => f.closed :: fieldsFrom separators .fresh .nothing atoms
  | f, _, .mark :: atoms => fieldsFrom separators { f with started := true } .nothing atoms
  | f, skipping, .letter separable l :: atoms =>
    let isSeparator := separable && (separators.contains l.char || l.char = Atom.argumentEnd)
    let blank := isBlankSeparator l.char
    if !isSeparator then fieldsFrom separators (f.push l) .nothing atoms
    else if blank && (skipping ≠ .nothing || !f.started) then fieldsFrom separators f skipping atoms
    else if skipping = .blanksAndOne then fieldsFrom separators f .blanks atoms
    else
      f.closed ::
        fieldsFrom separators .fresh (if blank then .blanksAndOne else .blanks) atoms

def fields (separators : List Char) (atoms : List Atom) : List (List Letter) :=
  fieldsFrom separators .fresh .nothing atoms

def withoutBlanks (separators : List Char) (atoms : List Atom) : List Atom :=
  (atoms.reverse.dropWhile fun
    | .letter separable l => separable && separators.contains l.char && isBlankSeparator l.char
    | _ => false).reverse

def firstField (separators : List Char) :
    OpenField → Skipping → List Atom → List Letter × List Atom
  | f, _, [] => (f.closed, [])
  | f, skipping, .letter separable l :: atoms =>
    let isSeparator := separable && separators.contains l.char
    let blank := isBlankSeparator l.char
    if !isSeparator then
      if f.started && skipping ≠ .nothing then (f.closed, .letter separable l :: atoms)
      else firstField separators (f.push l) .nothing atoms
    else if blank && (skipping ≠ .nothing || !f.started) then
      firstField separators f skipping atoms
    else if skipping = .blanksAndOne then firstField separators f .blanks atoms
    else if skipping = .blanks then (f.closed, .letter separable l :: atoms)
    else
      firstField separators { f with started := true }
        (if blank then .blanksAndOne else .blanks) atoms
  | f, skipping, _ :: atoms => firstField separators f skipping atoms

/-- At most so many fields. The last one is all that is left, unless that is one field with a separator
behind it. -/
def fieldsUpTo (separators : List Char) : Nat → List Atom → List (List Letter)
  | 0, _ => []
  | 1, atoms =>
    match fields separators atoms with
    | [] => []
    | [f] => [f]
    | _ => [Atom.letters (withoutBlanks separators (atoms.dropWhile fun
        | .letter separable l => separable && separators.contains l.char && isBlankSeparator l.char
        | _ => false))]
  | count + 1, atoms =>
    let (first, rest) := firstField separators .fresh .nothing atoms
    first :: (if rest = [] then [] else fieldsUpTo separators count rest)

end ContractRegistry.Shell
