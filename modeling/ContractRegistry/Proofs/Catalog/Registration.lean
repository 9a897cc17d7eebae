import ContractRegistry.Catalog
import ContractRegistry.Proofs.Outcome
import Mathlib.Data.List.Nodup

/-!
Names in a catalog.

A catalog is the list of the registrations that succeeded: their structs and their further names, each in
order. No name is in that list twice, so each is looked up as it was registered, unless the language
has a built-in type of that name.
-/
namespace ContractRegistry

inductive Registration where
  | struct (d : StructDef)
  | enum (name : String) (members : Nat)
  | synonym (name : String) (kind : Elementary)
deriving DecidableEq, Repr

namespace Registration

def name : Registration → String
  | .struct d => d.name
  | .enum name _ => name
  | .synonym name _ => name

def struct? : Registration → Option StructDef
  | .struct d => some d
  | .enum _ _ => none
  | .synonym _ _ => none

def kind? : Registration → Option Elementary
  | .struct _ => none
  | .enum _ members => some (.uint (8 * Catalog.enumBytes members))
  | .synonym _ kind => some kind

def type (r : Registration) : TypeRef :=
  match r.kind? with
  | some kind => .elementary kind
  | none => .struct r.name

def Moderate : Registration → Prop
  | .enum _ members => members ≤ 0x100000000
  | _ => True

/-- The members of an enum can be told apart by a number of bytes that is tried. -/
def fits : Registration → Bool
  | .struct _ => true
  | .enum _ members => members ≤ Catalog.enumLimit
  | .synonym _ _ => true

theorem fits_of_moderate {r : Registration} (moderate : r.Moderate) : r.fits = true := by
  cases r with
  | struct d => rfl
  | enum name members => exact decide_eq_true (Nat.le_trans moderate (by decide))
  | synonym name kind => rfl

def register (c : Catalog) : Registration → Except (Failure CatalogError) Catalog
  | .struct d => Failure.tell (c.registerStruct d)
  | .enum name members => c.registerEnum name members
  | .synonym name kind => Failure.tell (c.registerAlias name kind)

variable {r : Registration}

theorem struct?_eq_some {d : StructDef} (is : r.struct? = some d) : r.name = d.name := by
  cases r with
  | struct d' =>
    cases is
    rfl
  | enum name members => contradiction
  | synonym name kind => contradiction

theorem struct?_eq_none_iff : r.struct? = none ↔ ∃ kind, r.kind? = some kind := by
  cases r <;> simp [struct?, kind?]

end Registration

namespace Catalog

/-- The catalog after calls. One that fails leaves it as it is. -/
def afterCalls : Catalog → List Registration → Catalog
  | c, [] => c
  | c, r :: rs =>
    match r.register c with
    | .ok next => next.afterCalls rs
    | .error _ => c.afterCalls rs

def accepted : Catalog → List Registration → List Registration
  | _, [] => []
  | c, r :: rs =>
    match r.register c with
    | .ok next => r :: next.accepted rs
    | .error _ => c.accepted rs

/-- A catalog has the structs and the further names of registrations, in order, and no two of these have
one name. -/
structure Holds (c : Catalog) (rs : List Registration) : Prop where
  structs : c.structs = rs.filterMap Registration.struct?
  aliases : c.aliases = rs.filterMap fun r => r.kind?.map (r.name, ·)
  distinct : (rs.map Registration.name).Nodup

theorem holds_empty : Holds .empty [] :=
  ⟨rfl, rfl, .nil⟩

variable {c c' : Catalog} {rs : List Registration} {r : Registration}

theorem Holds.struct?_eq_some (holds : c.Holds rs) {name : String} {d : StructDef}
    (found : c.struct? name = some d) : ∃ r ∈ rs, r.struct? = some d ∧ r.name = name := by
  have mem := List.mem_of_find?_eq_some found
  have named : d.name = name := by simpa using List.find?_some found
  rw [holds.structs] at mem
  obtain ⟨r, there, is⟩ := List.mem_filterMap.mp mem
  exact ⟨r, there, is, (Registration.struct?_eq_some is).trans named⟩

theorem Holds.alias?_eq_some (holds : c.Holds rs) {name : String} {kind : Elementary}
    (found : c.alias? name = some kind) : ∃ r ∈ rs, r.kind? = some kind ∧ r.name = name := by
  obtain ⟨before, after, parts, -⟩ := List.lookup_eq_some_iff.mp found
  have mem : (name, kind) ∈ c.aliases := parts ▸ List.mem_append_right _ List.mem_cons_self
  rw [holds.aliases] at mem
  obtain ⟨r, there, is⟩ := List.mem_filterMap.mp mem
  obtain ⟨_, known, eq⟩ := Option.map_eq_some_iff.mp is
  cases eq
  exact ⟨r, there, known, rfl⟩

/-- A name is found as the struct that it was registered for, if it was registered for one. -/
theorem Holds.struct?_registered (holds : c.Holds rs) (mem : r ∈ rs) : c.struct? r.name = r.struct? := by
  cases found : c.struct? r.name with
  | some d =>
    obtain ⟨other, there, is, same⟩ := holds.struct?_eq_some found
    rw [← List.inj_on_of_nodup_map holds.distinct there mem same, is]
  | none =>
    cases is : r.struct? with
    | none => rfl
    | some d =>
      have stored : d ∈ c.structs := holds.structs ▸ List.mem_filterMap.mpr ⟨r, mem, is⟩
      have named := Registration.struct?_eq_some is
      simpa [named] using List.find?_eq_none.mp found d stored

theorem Holds.alias?_registered (holds : c.Holds rs) (mem : r ∈ rs) : c.alias? r.name = r.kind? := by
  cases found : c.alias? r.name with
  | some kind =>
    obtain ⟨other, there, is, same⟩ := holds.alias?_eq_some found
    rw [← List.inj_on_of_nodup_map holds.distinct there mem same, is]
  | none =>
    cases is : r.kind? with
    | none => rfl
    | some kind =>
      have stored : (r.name, kind) ∈ c.aliases :=
        holds.aliases ▸ List.mem_filterMap.mpr ⟨r, mem, by rw [is]; rfl⟩
      simpa using List.lookup_eq_none_iff.mp found (r.name, kind) stored

theorem Holds.contains_iff (holds : c.Holds rs) {name : String} :
    c.contains name = true ↔ ∃ r ∈ rs, r.name = name := by
  simp only [contains, hasStruct, Bool.or_eq_true, Option.isSome_iff_exists]
  constructor
  · rintro (⟨d, found⟩ | ⟨kind, found⟩)
    · obtain ⟨r, mem, -, same⟩ := holds.struct?_eq_some found
      exact ⟨r, mem, same⟩
    · obtain ⟨r, mem, -, same⟩ := holds.alias?_eq_some found
      exact ⟨r, mem, same⟩
  · rintro ⟨r, mem, rfl⟩
    rw [holds.struct?_registered mem, holds.alias?_registered mem]
    cases is : r.struct? with
    | some d => exact .inl ⟨d, rfl⟩
    | none => exact .inr (Registration.struct?_eq_none_iff.mp is)

theorem Holds.elementary?_registered (holds : c.Holds rs) (mem : r ∈ rs)
    (free : Elementary.ofName? r.name = none) : c.elementary? r.name = r.kind? := by
  rw [elementary?, free, Option.none_or, holds.alias?_registered mem]

/-- A registered name that is not one of the language resolves to the type that it is registered as. -/
theorem Holds.resolve_registered (holds : c.Holds rs) (mem : r ∈ rs)
    (free : Elementary.ofName? r.name = none) :
    c.resolve r.name = .ok r.type ∧ c.fieldType r.name = r.type := by
  unfold resolve fieldType Registration.type
  rw [holds.elementary?_registered mem free]
  cases is : r.kind? with
  | some kind => exact ⟨rfl, rfl⟩
  | none =>
    have known : c.hasStruct r.name = true := by
      rw [hasStruct, holds.struct?_registered mem, Option.isSome_iff_ne_none, Ne,
        Registration.struct?_eq_none_iff]
      simp [is]
    exact ⟨if_pos known, rfl⟩

theorem resolve_builtin {name : String} {kind : Elementary} (builtin : Elementary.ofName? name = some kind) :
    c.resolve name = .ok (.elementary kind) ∧ c.fieldType name = .elementary kind := by
  unfold resolve fieldType elementary?
  rw [builtin]
  exact ⟨rfl, rfl⟩

/-- A call succeeds exactly when its name is free, unless it is for an enum of more members than fit. -/
theorem register_ok_iff_fits :
    (∃ next, r.register c = .ok next) ↔ c.contains r.name = false ∧ r.fits = true := by
  cases r with
  | struct d =>
    simp only [Registration.register, registerStruct, Registration.name, Registration.fits, contains,
      Bool.or_eq_false_iff, and_true]
    split
    · rename_i known
      simp [known]
    · rename_i new
      split
      · rename_i known
        simp [known]
      · rename_i free
        simp [new, free]
  | enum name members =>
    simp only [Registration.register, registerEnum, registerAlias, Registration.name, Registration.fits,
      decide_eq_true_eq]
    split
    · rename_i many
      simp [Nat.not_le.mpr many]
    · rename_i few
      cases c.contains name <;> simp [Nat.le_of_not_lt few]
  | synonym name kind =>
    simp only [Registration.register, registerAlias, Registration.name, Registration.fits, and_true]
    cases c.contains name <;> simp

theorem register_ok_iff (moderate : r.Moderate) :
    (∃ next, r.register c = .ok next) ↔ c.contains r.name = false := by
  rw [register_ok_iff_fits, Registration.fits_of_moderate moderate]
  exact and_iff_left rfl

/-- A call that succeeds adds itself behind the earlier ones, and its name was none of theirs. -/
theorem Holds.registered (holds : c.Holds rs) (run : r.register c = .ok c') : c'.Holds (rs ++ [r]) := by
  have extended (new : c.contains r.name = false) : ((rs ++ [r]).map Registration.name).Nodup := by
    rw [List.map_append, List.map_singleton, ← List.concat_eq_append]
    refine List.Nodup.concat (fun mem => ?_) holds.distinct
    obtain ⟨other, there, same⟩ := List.mem_map.mp mem
    rw [holds.contains_iff.mpr ⟨other, there, same⟩] at new
    contradiction
  cases r with
  | struct d =>
    simp only [Registration.register, registerStruct] at run
    split at run
    · contradiction
    split at run
    · contradiction
    rename_i new free
    cases run
    refine ⟨?_, ?_, extended ?_⟩
    · simp [holds.structs, Registration.struct?]
    · simp [holds.aliases, Registration.kind?]
    · simp [contains, Registration.name, new, free]
  | enum name members =>
    simp only [Registration.register, registerEnum, registerAlias] at run
    split at run
    · contradiction
    split at run
    · contradiction
    rename_i few new
    cases run
    refine ⟨?_, ?_, extended ?_⟩
    · simp [holds.structs, Registration.struct?]
    · simp [holds.aliases, Registration.kind?, Registration.name]
    · simpa [Registration.name] using new
  | synonym name kind =>
    simp only [Registration.register, registerAlias] at run
    split at run
    · contradiction
    rename_i new
    cases run
    refine ⟨?_, ?_, extended ?_⟩
    · simp [holds.structs, Registration.struct?]
    · simp [holds.aliases, Registration.kind?, Registration.name]
    · simpa [Registration.name] using new

theorem Holds.afterCalls (holds : c.Holds rs) (calls : List Registration) :
    (c.afterCalls calls).Holds (rs ++ c.accepted calls) := by
  induction calls generalizing c rs with
  | nil => simpa [Catalog.afterCalls, accepted] using holds
  | cons r calls ih =>
    simp only [Catalog.afterCalls, accepted]
    cases run : r.register c with
    | ok next =>
      rw [List.append_cons]
      exact ih (holds.registered run)
    | error e => exact ih holds

theorem Holds.accepted_of_distinct (holds : c.Holds rs) {calls : List Registration}
    (distinct : ((rs ++ calls).map Registration.name).Nodup) :
    c.accepted calls = calls.filter Registration.fits := by
  induction calls generalizing c rs with
  | nil => rfl
  | cons r calls ih =>
    have apart : (rs.map Registration.name).Disjoint ((r :: calls).map Registration.name) := by
      rw [List.map_append] at distinct
      exact List.disjoint_of_nodup_append distinct
    have free : c.contains r.name = false := by
      rw [← Bool.not_eq_true, holds.contains_iff]
      rintro ⟨other, there, eq⟩
      apply apart (List.mem_map_of_mem there)
      rw [eq]
      exact List.mem_map_of_mem List.mem_cons_self
    have calling := @register_ok_iff_fits c r
    simp only [accepted]
    cases run : r.register c with
    | ok next =>
      have fit := (calling.mp ⟨next, run⟩).2
      rw [List.append_cons] at distinct
      simp only [List.filter_cons, fit, if_true, ih (holds.registered run) distinct]
    | error e =>
      have unfit : r.fits = false := by
        rw [← Bool.not_eq_true]
        intro fit
        obtain ⟨next, ok⟩ := calling.mpr ⟨free, fit⟩
        rw [run] at ok
        contradiction
      have fewer : ((rs ++ calls).map Registration.name).Nodup := by
        refine distinct.sublist (List.Sublist.map _ ?_)
        exact List.Sublist.append_left (List.sublist_cons_self r calls) rs
      simp only [List.filter_cons, unfit, ih holds fewer]
      rfl

theorem afterCalls_holds (calls : List Registration) :
    (Catalog.empty.afterCalls calls).Holds (Catalog.empty.accepted calls) :=
  holds_empty.afterCalls calls

theorem afterCalls_refused {calls : List Registration} {e : Failure CatalogError}
    (refused : r.register (c.afterCalls calls) = .error e) :
    c.afterCalls (calls ++ [r]) = c.afterCalls calls := by
  induction calls generalizing c with
  | nil =>
    have refused : r.register c = .error e := refused
    simp [afterCalls, refused]
  | cons first calls ih =>
    simp only [List.cons_append, afterCalls] at refused ⊢
    cases run : first.register c with
    | ok next =>
      rw [run] at refused
      exact ih refused
    | error e =>
      rw [run] at refused
      exact ih refused

/-- A name is bound by the first call for it, and stands for what that call registered. A name of the
language stands for the built-in type, whatever else it is registered for. -/
structure BindingLaw (calls : List Registration) : Prop where
  succeeds_iff : ∀ before r after, calls = before ++ r :: after →
    ((∃ next, r.register (Catalog.empty.afterCalls before) = .ok next) ↔
      ∀ earlier ∈ Catalog.empty.accepted before, earlier.name ≠ r.name)
  refused : ∀ before r after, calls = before ++ r :: after → ∀ e,
    r.register (Catalog.empty.afterCalls before) = .error e →
      Catalog.empty.afterCalls (before ++ [r]) = Catalog.empty.afterCalls before
  resolved : ∀ r ∈ Catalog.empty.accepted calls, Elementary.ofName? r.name = none →
    (Catalog.empty.afterCalls calls).resolve r.name = .ok r.type ∧
      (Catalog.empty.afterCalls calls).fieldType r.name = r.type
  builtin : ∀ name kind, Elementary.ofName? name = some kind →
    (Catalog.empty.afterCalls calls).resolve name = .ok (.elementary kind) ∧
      (Catalog.empty.afterCalls calls).fieldType name = .elementary kind
  defined : ∀ r ∈ Catalog.empty.accepted calls,
    (Catalog.empty.afterCalls calls).struct? r.name = r.struct?
  undefined : ∀ name, (∀ r ∈ Catalog.empty.accepted calls, r.name ≠ name) →
    (Catalog.empty.afterCalls calls).struct? name = none
  contains_iff : ∀ name, (Catalog.empty.afterCalls calls).contains name = true ↔
    ∃ r ∈ Catalog.empty.accepted calls, r.name = name

theorem names_bound_once (calls : List Registration) (moderate : ∀ r ∈ calls, r.Moderate) :
    BindingLaw calls := by
  have holds := afterCalls_holds calls
  constructor
  · intro before r after parts
    have few : r.Moderate := moderate r (parts ▸ by simp)
    rw [register_ok_iff few, ← Bool.not_eq_true, (afterCalls_holds before).contains_iff]
    simp
  · intro before r after _ e refused
    exact afterCalls_refused refused
  · exact fun r mem free => holds.resolve_registered mem free
  · exact fun name kind builtin => resolve_builtin builtin
  · exact fun r mem => holds.struct?_registered mem
  · intro name new
    refine Option.eq_none_iff_forall_ne_some.mpr fun d found => ?_
    obtain ⟨r, mem, -, same⟩ := holds.struct?_eq_some found
    exact new r mem same
  · exact fun name => holds.contains_iff

/-- `struct Point { uint256 x; }`, an enum of the same name, another enum, and a struct named like a
built-in type. -/
def pointCalls : List Registration :=
  [.struct ⟨"Point", [⟨"x", .elementary (.uint 256)⟩]⟩, .enum "Point" 3, .enum "Status" 257,
    .struct ⟨"uint8", [⟨"y", .elementary .bool⟩]⟩]

theorem point_bound_once :
    Catalog.empty.accepted pointCalls =
      [.struct ⟨"Point", [⟨"x", .elementary (.uint 256)⟩]⟩, .enum "Status" 257,
        .struct ⟨"uint8", [⟨"y", .elementary .bool⟩]⟩] ∧
    (Catalog.empty.afterCalls pointCalls).resolve "Point" = .ok (.struct "Point") ∧
    (Catalog.empty.afterCalls pointCalls).resolve "Status" = .ok (.elementary (.uint 16)) ∧
    (Catalog.empty.afterCalls pointCalls).resolve "uint8" = .ok (.elementary (.uint 8)) := by
  have moderate : ∀ r ∈ pointCalls, r.Moderate := by simp [pointCalls, Registration.Moderate]
  have law := names_bound_once pointCalls moderate
  have accepted : Catalog.empty.accepted pointCalls =
      [.struct ⟨"Point", [⟨"x", .elementary (.uint 256)⟩]⟩, .enum "Status" 257,
        .struct ⟨"uint8", [⟨"y", .elementary .bool⟩]⟩] := by decide
  have point := law.resolved (.struct ⟨"Point", [⟨"x", .elementary (.uint 256)⟩]⟩)
    (by rw [accepted]; simp) (by decide)
  have status := law.resolved (.enum "Status" 257) (by rw [accepted]; simp) (by decide)
  exact ⟨accepted, point.1, status.1, (law.builtin "uint8" (.uint 8) (by decide)).1⟩

/-- A struct can be registered under the name of a built-in type, and is not found under it. -/
theorem builtin_name_hides_struct :
    ¬ ∀ calls : List Registration, (∀ r ∈ calls, r.Moderate) → ∀ r ∈ Catalog.empty.accepted calls,
      (Catalog.empty.afterCalls calls).resolve r.name = .ok r.type := by
  intro resolves
  let hidden : Registration := .struct ⟨"uint8", [⟨"y", .elementary .bool⟩]⟩
  have accepted : hidden ∈ Catalog.empty.accepted [hidden] := by decide
  have found := resolves [hidden] (by simp [hidden, Registration.Moderate]) hidden accepted
  have builtin : (Catalog.empty.afterCalls [hidden]).resolve "uint8" = .ok (.elementary (.uint 8)) := by
    decide
  cases builtin.symm.trans found

end Catalog

end ContractRegistry
