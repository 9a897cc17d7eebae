import ContractRegistry.Proofs.Source.Sized
import Mathlib.Algebra.Group.Nat.Defs
import Mathlib.Order.Bounds.Basic

/-!
The bytes of an enum.

Widths are tried from one byte on, until the number of the last member leaves nothing behind when it is
moved right by all bits of the width. This is the least width that tells the members apart. The number is a
word of 64 bits and cannot be moved by as many, so eight bytes are never tried: an enum that needs them is
refused.
-/
namespace ContractRegistry.Catalog

theorem shiftRight_bytes_eq_zero_iff {last bytes : Nat} : last >>> (8 * bytes) = 0 ↔ last < 256 ^ bytes := by
  rw [Nat.shiftRight_eq_div_pow, Nat.pow_mul]
  exact Nat.div_eq_zero_iff_lt (Nat.pow_pos (by decide))

theorem pow_le_of_lt_widen {last room bytes n : Nat} (tried : bytes ≤ n) (left : n < widen last room bytes) :
    256 ^ n ≤ last := by
  induction room generalizing bytes with
  | zero => exact absurd left (Nat.not_lt.mpr tried)
  | succ room ih =>
    unfold widen at left
    split at left
    · omega
    · rename_i beyond
      rcases Nat.eq_or_lt_of_le tried with rfl | later
      · exact Nat.not_lt.mp (mt shiftRight_bytes_eq_zero_iff.mpr beyond)
      · exact ih later left

theorem lt_pow_widen {last room bytes : Nat} (fits : last < 256 ^ (bytes + room)) :
    last < 256 ^ widen last room bytes := by
  induction room generalizing bytes with
  | zero => exact fits
  | succ room ih =>
    unfold widen
    split
    · rename_i fit
      exact shiftRight_bytes_eq_zero_iff.mp fit
    · exact ih (by rwa [Nat.add_right_comm])

/-- Widths that tell so many members apart, of one byte or more. -/
def sufficientBytes (members : Nat) : Set Nat :=
  {bytes | 1 ≤ bytes ∧ members ≤ 256 ^ bytes}

theorem enumBytes_isLeast {members : Nat} (fits : members ≤ 256 ^ 32) :
    IsLeast (sufficientBytes members) (enumBytes members) := by
  -- Members are counted from zero, so the last one is below the power when their number is not above it.
  have counted (bytes : Nat) : members - 1 < 256 ^ bytes ↔ members ≤ 256 ^ bytes := by
    have positive : 0 < 256 ^ bytes := Nat.pow_pos (by decide)
    omega
  constructor
  · exact ⟨(widen_within (members - 1) 31 1).1, (counted _).mp (lt_pow_widen ((counted 32).mpr fits))⟩
  · rintro bytes ⟨one, enough⟩
    by_contra more
    have beyond := pow_le_of_lt_widen one (Nat.not_le.mp more)
    exact absurd ((counted bytes).mpr enough) (Nat.not_lt.mpr beyond)

/-- A number of 64 bits moved right. It cannot be moved by as many bits as it has. -/
def moveWord? (number bits : Nat) : Option Nat :=
  if bits < 64 then some (number >>> bits) else none

/-- Widens `bytes` as long as the last member, a word, does not fit in it. -/
def widenWord? (last : Nat) : Nat → Nat → Option Nat
  | 0, bytes => some bytes
  | room + 1, bytes => do
    let left ← moveWord? last (8 * bytes)
    if left = 0 then some bytes else widenWord? last room (bytes + 1)

theorem widenWord?_succ {bytes : Nat} (within : bytes < 8) (last room : Nat) :
    widenWord? last (room + 1) bytes =
      if last < 256 ^ bytes then some bytes else widenWord? last room (bytes + 1) := by
  have moved : moveWord? last (8 * bytes) = some (last >>> (8 * bytes)) := if_pos (by omega)
  rw [widenWord?, moved]
  exact if_congr shiftRight_bytes_eq_zero_iff rfl rfl

theorem widenWord?_of_lt {last room bytes : Nat} (small : last < 256 ^ 7) (within : bytes ≤ 7) :
    widenWord? last room bytes = some (widen last room bytes) := by
  induction room generalizing bytes with
  | zero => rfl
  | succ room ih =>
    rw [widenWord?_succ (by omega), widen]
    simp only [shiftRight_bytes_eq_zero_iff]
    split
    · rfl
    · rename_i beyond
      have below : bytes < 7 :=
        (Nat.pow_lt_pow_iff_right (by decide)).mp (Nat.lt_of_le_of_lt (Nat.not_lt.mp beyond) small)
      exact ih below

theorem widenWord?_of_le {last room bytes : Nat} (large : 256 ^ 7 ≤ last) (within : bytes ≤ 8)
    (tried : 8 < bytes + room) : widenWord? last room bytes = none := by
  induction room generalizing bytes with
  | zero => omega
  | succ room ih =>
    rcases Nat.eq_or_lt_of_le within with rfl | below
    · rfl
    · have beyond : 256 ^ bytes ≤ last :=
        Nat.le_trans (Nat.pow_le_pow_right (by decide) (Nat.le_of_lt_succ below)) large
      rw [widenWord?_succ below, if_neg (Nat.not_lt.mpr beyond)]
      exact ih below (by omega)

theorem widenWord?_eq (members : Nat) :
    widenWord? (members - 1) 31 1 = if members ≤ 256 ^ 7 then some (enumBytes members) else none := by
  split
  · exact widenWord?_of_lt (by omega) (by decide)
  · exact widenWord?_of_le (by omega) (by decide) (by decide)

/-- An enum stands for an integer of the width that is found for it, and there is a panic if none is. -/
theorem registerEnum_eq_widenWord? (c : Catalog) (name : String) (members : Nat) :
    c.registerEnum name members =
      match widenWord? (members - 1) 31 1 with
      | none => .error (.panic .shift)
      | some bytes => Failure.tell (c.registerAlias name (.uint (8 * bytes))) := by
  have limit : enumLimit = 256 ^ 7 := rfl
  rw [widenWord?_eq, registerEnum, limit]
  by_cases few : members ≤ 256 ^ 7
  · rw [if_neg (Nat.not_lt.mpr few), if_pos few]
  · rw [if_pos (Nat.not_le.mp few), if_neg few]

/-- An enum of a free name stands for an unsigned integer of the fewest bytes that tell its members apart,
and all else in the catalog stays as it is. This holds up to seven bytes. For more members no width is
found, since the last member cannot be moved by eight bytes: the shift ends the program. -/
structure EnumWidthLaw (c : Catalog) (name : String) (members bytes : Nat) : Prop where
  least : IsLeast (sufficientBytes members) bytes
  found : widenWord? (members - 1) 31 1 = if members ≤ 256 ^ 7 then some bytes else none
  registered : members ≤ 256 ^ 7 → ∃ next, c.registerEnum name members = .ok next ∧
    next.alias? name = some (.uint (8 * bytes)) ∧ Beside name c next
  refused : 256 ^ 7 < members → c.registerEnum name members = .error (.panic .shift)

theorem alias?_of_registerAlias {c next : Catalog} {name : String} {kind : Elementary}
    (free : c.contains name = false) (run : c.registerAlias name kind = .ok next) :
    next.alias? name = some kind := by
  obtain ⟨-, rfl⟩ := registerAlias_eq_ok.mp run
  have new : c.aliases.lookup name = none := by
    simp only [contains, Bool.or_eq_false_iff] at free
    simpa [alias?] using free.2
  simp [alias?, List.lookup_append, new]

theorem enum_takes_least_bytes (c : Catalog) (name : String) (members : Nat)
    (word : members < Numeral.limit64) (free : c.contains name = false) :
    ∃ bytes, EnumWidthLaw c name members bytes := by
  have fits : members ≤ 256 ^ 32 := Nat.le_trans (Nat.le_of_lt word) (by decide)
  refine ⟨enumBytes members, enumBytes_isLeast fits, widenWord?_eq members, fun few => ?_, fun many => ?_⟩
  · obtain ⟨next, run, beside⟩ := registerAlias_free free (.uint (8 * enumBytes members))
    refine ⟨next, ?_, alias?_of_registerAlias free run, beside⟩
    rw [registerEnum_eq_widenWord?, widenWord?_eq, if_pos few]
    exact Failure.tell_eq_ok.mpr run
  · rw [registerEnum_eq_widenWord?, widenWord?_eq, if_neg (Nat.not_le.mpr many)]

theorem status_takes_two_bytes :
    257 < Numeral.limit64 ∧ Catalog.empty.contains "Status" = false ∧
      EnumWidthLaw .empty "Status" 257 2 := by
  have word : 257 < Numeral.limit64 := by decide
  have free : Catalog.empty.contains "Status" = false := rfl
  obtain ⟨bytes, law⟩ := enum_takes_least_bytes .empty "Status" 257 word free
  have two : IsLeast (sufficientBytes 257) 2 := by
    refine ⟨⟨by decide, by decide⟩, ?_⟩
    rintro bytes ⟨one, enough⟩
    by_contra fewer
    obtain rfl : bytes = 1 := by omega
    exact absurd enough (by decide)
  obtain rfl := law.least.unique two
  exact ⟨word, free, law⟩

/-- One member more than seven bytes tell apart: eight bytes would do, but they are not tried. -/
theorem vast_enum_refused :
    ¬ ∀ (c : Catalog) (name : String) (members : Nat), members < Numeral.limit64 →
      c.contains name = false → ∃ bytes next, IsLeast (sufficientBytes members) bytes ∧
        c.registerEnum name members = .ok next ∧ next.alias? name = some (.uint (8 * bytes)) := by
  intro registers
  obtain ⟨bytes, next, -, run, -⟩ := registers .empty "Vast" 72057594037927937 (by decide) rfl
  have refused : Catalog.empty.registerEnum "Vast" 72057594037927937 = .error (.panic .shift) := rfl
  rw [refused] at run
  contradiction

end ContractRegistry.Catalog
