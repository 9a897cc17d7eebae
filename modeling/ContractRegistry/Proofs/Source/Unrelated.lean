import ContractRegistry.Proofs.Source.Aliases
import ContractRegistry.Proofs.Source.Inheritance
import ContractRegistry.Proofs.Source.Reached
import Mathlib.Data.Fintype.EquivFin

/-!
What a contract does to the storage of contracts that do not know it.

Its name becomes one more alias, which nobody uses, and no order of bases has it. But the constants of
all contracts are in one table, and the last of a name counts. So the contract is without influence
exactly as long as no constant that it declares is one that the storage depends on, unless a contract
behind it declares that constant again.
-/
namespace ContractRegistry.Source

/-- A contract declares a constant of this name with an initial value. -/
def ContractItem.Declares (c : ContractItem) (name : String) : Prop :=
  ∃ v ∈ c.declared, v.name = name ∧ v.mutability = .constant ∧ v.init.isSome

namespace SourceUnit

/-- The names of contracts, bases and types that a source declares or uses. -/
def names (u : SourceUnit) : List String :=
  u.contracts.flatMap (fun c => c.name :: c.bases ++ c.declared.flatMap (·.ty.names)) ++
    u.structs.flatMap (fun s => s.name :: s.fields.flatMap (·.2.names)) ++
    u.enums.map (·.name) ++ u.valueTypes.map (·.name)

def insertContract (u : SourceUnit) (place : Nat) (x : ContractItem) : SourceUnit :=
  { u with contracts := u.contracts.take place ++ x :: u.contracts.drop place }

/-- The storage of a contract: its name, the structs of the source and the variables with their
types. -/
def storage (u : SourceUnit) (asked : String) :
    Except (Failure SourceError) (String × List StructDef × List Declaration) := do
  let source ← u.select (some asked)
  .ok (source.contract, source.catalog.structs, source.declarations)

structure Apart (u : SourceUnit) (name : String) : Prop where
  contracts : ∀ c ∈ u.contracts, c.name ≠ name
  bases : ∀ c ∈ u.contracts, ∀ base ∈ c.bases, base ≠ name
  declared : ∀ c ∈ u.contracts, ∀ v ∈ c.declared, name ∉ v.ty.names
  structs : ∀ s ∈ u.structs, s.name ≠ name
  fields : ∀ s ∈ u.structs, ∀ f ∈ s.fields, name ∉ f.2.names
  enums : ∀ e ∈ u.enums, e.name ≠ name
  valueTypes : ∀ v ∈ u.valueTypes, v.name ≠ name

theorem apart_of_new {u : SourceUnit} {name : String} (new : name ∉ u.names) : u.Apart name := by
  simp only [names, List.mem_append, List.mem_flatMap, List.mem_map, List.mem_cons] at new
  constructor <;> grind

section

variable {u : SourceUnit} {x : ContractItem} {asked : String} {place : Nat}

theorem mem_insertContract {c : ContractItem} (mem : c ∈ u.contracts) :
    c ∈ (u.insertContract place x).contracts := by
  rw [← List.take_append_drop place u.contracts, List.mem_append] at mem
  exact List.mem_append.mpr (mem.imp_right (List.mem_cons_of_mem x))

theorem contract?_insert {name : String} (other : name ≠ x.name) :
    (u.insertContract place x).contract? name = u.contract? name := by
  simp only [contract?, insertContract, List.find?_append, List.find?_cons, Ne.symm other,
    decide_false]
  rw [← List.find?_append, List.take_append_drop]

theorem ordered_insert (apart : u.Apart x.name) (other : asked ≠ x.name) :
    (u.insertContract place x).ordered asked = u.ordered asked := by
  simp only [ordered, target, contract?_insert other]
  cases found : u.contract? asked with
  | none => rfl
  | some c =>
    have mem := (contract?_mem found).1
    have same : u.inheritance c = (u.insertContract place x).inheritance c :=
      inheritance_congr (fun _ => mem_insertContract)
        (fun d within base based => (contract?_insert (apart.bases d within base based)).symm) mem
    simp only [bind, Except.bind, ← same]
    cases run : u.inheritance c with
    | error e => rfl
    | ok order =>
      -- The name is not in the order, so no variable is looked up in the new contract.
      have known := linearize_forall (· ≠ x.name)
        (fun d within => ⟨apart.contracts d within, apart.bases d within⟩) mem run
      have same : order.reverse.flatMap (u.insertContract place x).variablesOf =
          order.reverse.flatMap u.variablesOf :=
        List.flatMap_congr fun name within => by
          simp only [variablesOf, contract?_insert (known name (List.mem_reverse.mp within))]
      simp only [same]

theorem catalog_insert (apart : u.Apart x.name)
    (unmoved : ∀ s ∈ u.structs, ∀ f ∈ s.fields,
      f.2.Unmoved x.name u.constantTable (u.insertContract place x).constantTable) :
    Alike (Catalog.Beside x.name) u.catalog (u.insertContract place x).catalog := by
  have contracts : Alike (Catalog.Beside x.name) (registerContracts .empty u.contracts)
      (registerContracts .empty (u.insertContract place x).contracts) := by
    conv => arg 2; rw [← List.take_append_drop place u.contracts]
    exact registerContracts_insert rfl (by simpa only [List.take_append_drop] using apart.contracts)
  refine (orRefuse_alike contracts).tell.bind fun _ _ both => ?_
  refine ((registerEnums_beside both apart.enums).mapError _).bind fun _ _ both => ?_
  refine (orRefuse_alike (registerValueTypes_beside both apart.valueTypes)).tell.bind
    fun _ _ both => ?_
  exact (registerStructs_beside both apart.structs unmoved).tell

def constantsOf (contracts : List ContractItem) : Constants :=
  (contracts.flatMap ContractItem.declared).filterMap constantOf?

theorem mem_constantsOf {contracts : List ContractItem} {name : String} :
    name ∈ (constantsOf contracts).names ↔ ∃ c ∈ contracts, c.Declares name := by
  simp only [constantsOf, Constants.names, List.mem_map, List.mem_filterMap, List.mem_flatMap]
  constructor
  · rintro ⟨⟨_, ts⟩, ⟨v, ⟨c, mem, declared⟩, entry⟩, rfl⟩
    unfold constantOf? at entry
    split at entry
    · rename_i constant
      obtain ⟨_, init, same⟩ := Option.map_eq_some_iff.mp entry
      cases same
      exact ⟨c, mem, v, declared, rfl, constant, by simp [init]⟩
    · contradiction
  · rintro ⟨c, mem, v, declared, rfl, constant, valued⟩
    obtain ⟨ts, init⟩ := Option.isSome_iff_exists.mp valued
    exact ⟨(v.name, ts), ⟨v, ⟨c, mem, declared⟩, by simp [constantOf?, constant, init]⟩, rfl⟩

theorem init?_constantsOf_eq_none {contracts : List ContractItem} {name : String}
    (absent : ¬∃ c ∈ contracts, c.Declares name) : (constantsOf contracts).init? name = none := by
  rw [← mem_constantsOf, ← Constants.init?_isSome_iff] at absent
  simpa using absent

theorem init?_constantTable (u : SourceUnit) (place : Nat) (name : String) :
    u.constantTable.init? name =
      ((constantsOf (u.contracts.drop place)).init? name).or
        (Constants.init? (u.constants.filterMap constantOf? ++ constantsOf (u.contracts.take place))
          name) := by
  rw [← Constants.init?_append, List.append_assoc, constantsOf, constantsOf, ← List.filterMap_append,
    ← List.flatMap_append, List.take_append_drop, ← List.filterMap_append]
  rfl

theorem init?_insert (u : SourceUnit) (place : Nat) (x : ContractItem) (name : String) :
    (u.insertContract place x).constantTable.init? name =
      ((constantsOf (u.contracts.drop place)).init? name).or
        (((constantsOf [x]).init? name).or
          (Constants.init? (u.constants.filterMap constantOf? ++ constantsOf (u.contracts.take place))
            name)) := by
  have table : (u.insertContract place x).constantTable =
      u.constants.filterMap constantOf? ++ constantsOf (u.contracts.take place) ++ constantsOf [x] ++
        constantsOf (u.contracts.drop place) := by
    simp [constantTable, insertContract, constantsOf, List.flatMap_append, List.filterMap_append]
  rw [table, Constants.init?_append, Constants.init?_append]

theorem init?_insert_kept {name : String}
    (kept : x.Declares name → ∃ c ∈ u.contracts.drop place, c.Declares name) :
    (u.insertContract place x).constantTable.init? name = u.constantTable.init? name := by
  rw [init?_insert, init?_constantTable u place]
  by_cases declared : x.Declares name
  · have behind := Constants.init?_isSome_iff.mpr (mem_constantsOf.mpr (kept declared))
    obtain ⟨ts, found⟩ := Option.isSome_iff_exists.mp behind
    rw [found, Option.some_or, Option.some_or]
  · have absent : (constantsOf [x]).init? name = none :=
      init?_constantsOf_eq_none (by simpa using declared)
    rw [absent, Option.none_or]

theorem init?_insert_hidden {name : String} {ts : List Token}
    (last : ¬∃ c ∈ u.contracts.drop place, c.Declares name)
    (declared : (constantsOf [x]).init? name = some ts) :
    (u.insertContract place x).constantTable.init? name = some ts := by
  rw [init?_insert, init?_constantsOf_eq_none last, declared, Option.none_or, Option.some_or]

theorem agree_insert (kept : ∀ name, x.Declares name → u.Reaches asked name →
      ∃ c ∈ u.contracts.drop place, c.Declares name) :
    Constants.Agree (u.Reaches asked) u.constantTable
      (u.insertContract place x).constantTable where
  init := fun name reached => (init?_insert_kept fun declared => kept name declared reached).symm
  closed := fun _ _ reached init _ mem => .inConstant reached init mem

theorem storage_eq_of_alike {u v : SourceUnit}
    (alike : Alike (fun s s' : ContractSource => s.contract = s'.contract ∧
      s.catalog.structs = s'.catalog.structs ∧ s.declarations = s'.declarations)
      (u.select (some asked)) (v.select (some asked))) : u.storage asked = v.storage asked := by
  refine (alike.bind fun s s' both => ?_).eq
  obtain ⟨contract, structs, declarations⟩ := both
  rw [contract, structs, declarations]
  exact .ok rfl

/-- A contract that hides no constant that the storage depends on leaves the storage as it is. -/
theorem storage_insert (apart : u.Apart x.name) (other : asked ≠ x.name)
    (kept : ∀ name, x.Declares name → u.Reaches asked name →
      ∃ c ∈ u.contracts.drop place, c.Declares name) :
    (u.insertContract place x).storage asked = u.storage asked := by
  have agree := agree_insert kept
  -- The runs go side by side: the catalogs differ in one alias, the tables in constants not needed.
  refine (storage_eq_of_alike ?_).symm
  rw [select_eq, select_eq]
  refine (catalog_insert apart fun s mem f field => ⟨apart.fields s mem f field, ?_⟩).bind
    fun c c' beside => ?_
  · exact fun ts length => Constants.length?_congr agree fun word within =>
      .inStruct mem field length within
  · rw [ordered_insert apart other]
    cases run : u.ordered asked with
    | error e => exact .error (Failure.told e)
    | ok found =>
      obtain ⟨contract, items⟩ := found
      have unmoved : ∀ v ∈ items, v.ty.Unmoved x.name u.constantTable
          (u.insertContract place x).constantTable := by
        intro v mem
        obtain ⟨d, within, declared⟩ := ordered_declared run v mem
        exact ⟨apart.declared d within v declared, fun ts length =>
          Constants.length?_congr agree fun word within => .inVariable run mem length within⟩
      have declarations := (Alike.of_eq (resolveVariables_congr beside unmoved)).tell
      have checked := (Alike.of_eq (congrArg orRefuse beside.validate)).tell
      exact declarations.bind fun _ _ same => checked.bind fun _ _ _ =>
        .ok ⟨rfl, beside.structs, same⟩

end

def texted (name constant : String) : ContractItem :=
  ⟨name, .plain, [], [⟨constant, .named "string" 1, none, .constant, some [⟨.string, 1⟩]⟩]⟩

theorem texted_declares {name constant other : String} :
    (texted name constant).Declares other ↔ other = constant := by
  constructor
  · rintro ⟨v, declared, rfl, _⟩
    rw [List.mem_singleton.mp declared]
  · rintro rfl
    exact ⟨_, List.mem_singleton_self _, rfl, rfl, rfl⟩

theorem init?_texted (name constant : String) :
    (constantsOf [texted name constant]).init? constant = some [⟨.string, 1⟩] := by
  simp [constantsOf, texted, constantOf?, Constants.init?]

theorem not_hasValue_of_texted {constants : Constants} {name : String}
    (init : constants.init? name = some [⟨.string, 1⟩]) : ¬HasValue constants name := by
  rintro ⟨depth, opened, n, value⟩
  cases depth with
  | zero => contradiction
  | succ depth =>
    simp only [Constants.value?, init] at value
    split at value <;> contradiction

theorem storage_texted {u : SourceUnit} {asked name constant : String} {place : Nat}
    (apart : u.Apart name) (other : asked ≠ name) (reached : u.Reaches asked constant)
    (last : ¬∃ c ∈ u.contracts.drop place, c.Declares constant) :
    ∃ e, (u.insertContract place (texted name constant)).storage asked = .error e := by
  cases run : (u.insertContract place (texted name constant)).storage asked with
  | error e => exact ⟨e, rfl⟩
  | ok result =>
    exfalso
    obtain ⟨source, selected, _⟩ := bind_eq_ok.mp run
    -- Were there a storage, each reached constant would have a value, this one too.
    have hidden := init?_insert_hidden (x := texted name constant) last (init?_texted name constant)
    have lost := not_hasValue_of_texted hidden
    have ordered : (u.insertContract place (texted name constant)).ordered asked = u.ordered asked :=
      ordered_insert apart other
    refine lost (reaches_hasValue ordered rfl selected ?_ reached)
    intro word valued
    refine init?_insert_kept fun declared => ?_
    rw [texted_declares.mp declared] at valued
    exact absurd valued lost

theorem exists_new (u : SourceUnit) (asked : String) : ∃ name, asked ≠ name ∧ name ∉ u.names := by
  obtain ⟨name, new⟩ := Infinite.exists_notMem_finset (asked :: u.names).toFinset
  simp only [List.mem_toFinset, List.mem_cons, not_or] at new
  exact ⟨name, Ne.symm new.1, new.2⟩

/-- A contract of a new name leaves the storage of another one as it is, unless it is the last to
declare a constant that the storage depends on. So the constants that such contracts may declare are
those that the storage does not depend on, and those that are declared again behind them. -/
structure InfluenceLaw (u : SourceUnit) (asked : String) (place : Nat) : Prop where
  unaffected : ∀ x : ContractItem, asked ≠ x.name → x.name ∉ u.names →
    (∀ constant, x.Declares constant → u.Reaches asked constant →
      ∃ c ∈ u.contracts.drop place, c.Declares constant) →
    (u.insertContract place x).storage asked = u.storage asked
  harmless_iff : ∀ result, u.storage asked = .ok result → ∀ constants : String → Prop,
    (∀ x : ContractItem, asked ≠ x.name → x.name ∉ u.names →
        (∀ constant, x.Declares constant → constants constant) →
        (u.insertContract place x).storage asked = u.storage asked) ↔
      ∀ constant, constants constant → u.Reaches asked constant →
        ∃ c ∈ u.contracts.drop place, c.Declares constant

theorem influence_by_reached_constants (u : SourceUnit) (asked : String) (place : Nat) :
    InfluenceLaw u asked place where
  unaffected := fun _ other new kept => storage_insert (apart_of_new new) other kept
  harmless_iff := by
    intro result run constants
    constructor
    · intro harmless constant allowed reached
      by_contra last
      obtain ⟨name, other, new⟩ := exists_new u asked
      obtain ⟨e, refused⟩ := storage_texted (apart_of_new new) other reached last
      have same := harmless (texted name constant) other new fun word declared =>
        texted_declares.mp declared ▸ allowed
      rw [refused, run] at same
      contradiction
    · intro behind x other new allowed
      exact storage_insert (apart_of_new new) other fun constant declared =>
        behind constant (allowed constant declared)

def constantN (value : String) : VariableItem :=
  ⟨"N", .named "uint256" 1, none, .constant, some [⟨.number value, 1⟩]⟩

def arrayOfN : VariableItem :=
  ⟨"a", .array (.named "uint8" 1) (some [⟨.word "N", 1⟩]) 1, none, .mutable, none⟩

def storageOfTwo : String × List StructDef × List Declaration :=
  ("C", [], [⟨"a", .fixedArray (.elementary (.uint 8)) 2, none, .mutable⟩])

/-- `uint256 constant N = 2; contract C { uint8[N] a; }` -/
def outerConstant : SourceUnit :=
  { SourceUnit.empty with
    contracts := [⟨"C", .plain, [], [arrayOfN]⟩]
    constants := [constantN "2"] }

/-- `contract B { uint256 constant N = 2; } contract C { uint8[N] a; }` -/
def innerConstant : SourceUnit :=
  { SourceUnit.empty with
    contracts := [⟨"B", .plain, [], [constantN "2"]⟩, ⟨"C", .plain, [], [arrayOfN]⟩] }

def fiveInX : ContractItem := ⟨"X", .plain, [], [constantN "5"]⟩

theorem constant_declared_again_kept :
    innerConstant.storage "C" = .ok storageOfTwo ∧
      (innerConstant.insertContract 0 fiveInX).storage "C" = .ok storageOfTwo := by
  have before : innerConstant.storage "C" = .ok storageOfTwo := by rfl
  refine ⟨before, ?_⟩
  rw [← before]
  refine (influence_by_reached_constants innerConstant "C" 0).unaffected fiveInX (by decide)
    (by decide) fun constant declared _ => ?_
  obtain ⟨v, mem, named, _⟩ := declared
  rw [List.mem_singleton.mp mem] at named
  exact ⟨_, List.mem_cons_self, _, List.mem_singleton_self _, named, rfl, rfl⟩

/-- Behind `C`, another contract makes the array of two elements one of five. -/
theorem unrelated_constant_resizes :
    ¬∀ (u : SourceUnit) (asked : String) (place : Nat) (x : ContractItem), asked ≠ x.name →
      x.name ∉ u.names → (u.insertContract place x).storage asked = u.storage asked := by
  intro unaffected
  have same := unaffected outerConstant "C" 1 fiveInX (by decide) (by decide)
  have before : outerConstant.storage "C" = .ok storageOfTwo := by rfl
  have behind : (outerConstant.insertContract 1 fiveInX).storage "C" =
      .ok ("C", [], [⟨"a", .fixedArray (.elementary (.uint 8)) 5, none, .mutable⟩]) := by rfl
  rw [before, behind] at same
  simp [storageOfTwo] at same

end SourceUnit

end ContractRegistry.Source
