/-!
Blank characters and their removal from both ends of a text.
-/
namespace ContractRegistry.Text

def isBlank (c : Char) : Bool :=
  let n := c.toNat
  (0x09 ≤ n && n ≤ 0x0D) || n == 0x20 || n == 0x85 || n == 0xA0 || n == 0x1680 ||
    (0x2000 ≤ n && n ≤ 0x200A) || n == 0x2028 || n == 0x2029 || n == 0x202F || n == 0x205F ||
    n == 0x3000

def dropEndWhile (p : α → Bool) (xs : List α) : List α :=
  (xs.reverse.dropWhile p).reverse

def trim (cs : List Char) : List Char :=
  dropEndWhile isBlank (cs.dropWhile isBlank)

def isAllBlank (cs : List Char) : Bool :=
  cs.all isBlank

theorem isAllBlank_iff {cs : List Char} : isAllBlank cs = true ↔ ∀ c ∈ cs, isBlank c = true := by
  simp [isAllBlank]

end ContractRegistry.Text
