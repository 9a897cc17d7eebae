import ContractRegistry.Proofs.Layout.Failures

/-!
Which numbers can be too large for a layout.

A layout has the numbers that it has without a bound on them, unless one of them has more than 64 bits. The
first that has more is told as an overflow, but for that of the slot after the last, for which there is no
check: the addition ends the program.
-/
namespace ContractRegistry

open Numeral

theorem Exact.tooLarge?_eq_none {α : Type} {x : Exact α} :
    x.tooLarge? = none ↔ ∀ n ∈ x.needs, n.value < limit64 := by
  simp [tooLarge?]

def Failure.Unnumbered : Failure LayoutError → Prop
  | .told (.overflow _) => False
  | .panic .addition => False
  | _ => True

theorem LayoutError.Unfit.unnumbered {e : LayoutError} (unfit : e.Unfit) : (Failure.told e).Unnumbered := by
  cases unfit <;> trivial

/-- A layout has the numbers that it has without a bound on them, and all of them have 64 bits. If one
that is needed has more, the layout overflows, unless the first of them is that of the slot after the
last: then the program ends. -/
structure OverflowLaw (c : Catalog) (declarations : List Declaration) : Prop where
  ok_iff : ∀ l, c.layout declarations = .ok l ↔ (Exact.layout c declarations).outcome = .ok l ∧
    ∀ n ∈ (Exact.layout c declarations).needs, n.value < limit64
  numbered : ∀ l, c.layout declarations = .ok l →
    (∀ a ∈ l.assignments, a.slot < limit64) ∧ l.slotsUsed < limit64
  tooLarge : ∀ n, (Exact.layout c declarations).tooLarge? = some n → n.CanExceed
  overflow_iff : ∀ path, c.layout declarations = .error (.told (.overflow path)) ↔
    ∃ n, (Exact.layout c declarations).tooLarge? = some n ∧ n.failure = .told (.overflow path)
  lastSlot_iff : c.layout declarations = .error (.panic .addition) ↔
    (Exact.layout c declarations).tooLarge? = some (.next limit64)

theorem layout_overflows (c : Catalog) (declarations : List Declaration) :
    OverflowLaw c declarations := by
  have guarded : (Exact.layout c declarations).Guarded Failure.Unnumbered :=
    Exact.guarded_layout (fun _ unfit => unfit.unnumbered) (.inr trivial) (.inr fun _ => trivial)
  have bounded := Exact.bounded_layout (c := c) declarations
  have failed {e : Failure LayoutError} (numeric : ¬ e.Unnumbered) :
      c.layout declarations = .error e ↔
        ∃ n, (Exact.layout c declarations).tooLarge? = some n ∧ n.failure = e := by
    rw [← bounded, Exact.bounded]
    cases large : (Exact.layout c declarations).tooLarge? with
    | some n => simp
    | none =>
      simpa using fun fails => numeric (guarded.rest large e fails)
  constructor
  · intro l
    rw [← bounded, Exact.bounded_eq_ok, Exact.tooLarge?_eq_none, and_comm]
  · intro l run
    obtain ⟨cursor, scope, place, listed, used⟩ := Catalog.layout_placed run
    obtain ⟨_, _, placed⟩ := Catalog.place_placed place
    obtain ⟨fresh, found, eq⟩ := bind_eq_ok.mp used
    have small := (Catalog.measureFields_slot (placed_measures placed "")).2 (by decide)
    refine ⟨?_, Except.ok.inj eq ▸ Cursor.freshSlot_slot_lt small found⟩
    rw [listed]
    exact List.forall_mem_map.mpr (placed_seats (fun seated => seated.addressable) placed)
  · exact guarded.number
  · exact fun path => failed id
  · rw [failed id]
    constructor
    · rintro ⟨n, large, fails⟩
      have exceeds := guarded.number n large
      cases n with
      | next slot => rw [large, show slot = limit64 from exceeds]
      | product path count => contradiction
      | behind path slot => contradiction
      | absolute path slot => contradiction
    · exact fun large => ⟨_, large, rfl⟩

def behindArray (length : Nat) (others : List (String × Elementary)) : List Declaration :=
  ⟨"a", .fixedArray (.elementary (.uint 256)) length, none, .mutable⟩ ::
    others.map fun other => ⟨other.1, .elementary other.2, none, .mutable⟩

/-- All slots but the last can be used. Behind as many, what takes a slot of its own overflows. -/
theorem behind_array_reckoned :
    (∃ l, Catalog.empty.layout (behindArray (limit64 - 2) [("b", .bool)]) = .ok l ∧
      (Exact.layout .empty (behindArray (limit64 - 2) [("b", .bool)])).outcome = .ok l ∧
      l.slotsUsed = limit64 - 1) ∧
    (Exact.layout .empty (behindArray (limit64 - 1) [("b", .bytes)])).tooLarge? =
      some (.behind "b" limit64) ∧
    Catalog.empty.layout (behindArray (limit64 - 1) [("b", .bytes)]) = .error (.told (.overflow "b")) := by
  have fits := layout_overflows .empty (behindArray (limit64 - 2) [("b", .bool)])
  have exceeds := layout_overflows .empty (behindArray (limit64 - 1) [("b", .bytes)])
  have run : Catalog.empty.layout (behindArray (limit64 - 2) [("b", .bool)]) =
      .ok ⟨[⟨"a", 0, 0, largestSize, "uint256[18446744073709551614]", .value⟩,
        ⟨"b", limit64 - 2, 0, 1, "bool", .value⟩], limit64 - 1⟩ := by decide
  have large : (Exact.layout .empty (behindArray (limit64 - 1) [("b", .bytes)])).tooLarge? =
      some (.behind "b" limit64) := by decide
  exact ⟨⟨_, run, ((fits.ok_iff _).mp run).1, rfl⟩, large,
    (exceeds.overflow_iff "b").mpr ⟨_, large, rfl⟩⟩

/-- Behind the last slot there is no next one, and that is not told. -/
theorem step_behind_last_slot :
    ¬ ∀ (c : Catalog) (declarations : List Declaration), (∃ order, c.validate = .ok order) →
      c.Sized → (∀ d ∈ declarations, d.ty.Sized) →
      (∃ n ∈ (Exact.layout c declarations).needs, limit64 ≤ n.value) →
      ∃ path, c.layout declarations = .error (.told (.overflow path)) := by
  intro overflows
  let declarations := behindArray (limit64 - 1) [("b", .uint 256), ("c", .uint 256)]
  have panics : Catalog.empty.layout declarations = .error (.panic .addition) := by rfl
  have needed : .next limit64 ∈ (Exact.layout .empty declarations).needs := by decide
  have sized : ∀ d ∈ declarations, d.ty.Sized := by
    simp [declarations, behindArray, TypeRef.Sized, Elementary.Sized, Elementary.packedSize?, slotBytes]
  obtain ⟨path, told⟩ := overflows .empty declarations ⟨[], rfl⟩ (by simp [Catalog.Sized, Catalog.empty])
    sized ⟨_, needed, Nat.le_refl _⟩
  cases panics.symm.trans told

end ContractRegistry
