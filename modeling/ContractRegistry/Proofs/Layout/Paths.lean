import ContractRegistry.Proofs.Layout.Nesting
import Mathlib.Data.List.Nodup

/-!
The names of a layout.

A layout lists every variable and every member of a struct in place, a struct before its members. The
paths are the same whatever the struct's place is, so they can be written down from the types alone. When
names are told apart in each scope and have no dot, a path can be cut in one way only: its first part
tells the variable, the next one the member, and no two assignments share a path.
-/
namespace ContractRegistry

namespace Catalog

def pathsOf (inside : String → TypeRef → List String) (pathOf : String → String) (fields : List Field) :
    List String :=
  fields.flatMap fun f => pathOf f.name :: inside (pathOf f.name) f.ty

/-- The paths inside a type at a path. Only structs have any; the depth is that of structs in structs. -/
def pathsInside (c : Catalog) : Nat → String → TypeRef → List String
  | depth + 1, path, .struct name =>
    match c.struct? name with
    | some d => pathsOf (c.pathsInside depth) (memberPath path) d.fields
    | none => []
  | _, _, _ => []

def declaredPaths (c : Catalog) (depth : Nat) (declarations : List Declaration) : List String :=
  pathsOf (c.pathsInside depth) id (stored declarations)

variable {c : Catalog} {slots : String → LayoutResult Nat}

theorem pathsInside_plain {ty : TypeRef} (flat : ∀ name, ty ≠ .struct name) (depth : Nat) (path : String) :
    c.pathsInside depth path ty = [] := by
  cases depth with
  | zero => rfl
  | succ depth =>
    cases ty with
    | struct name => exact absurd rfl (flat name)
    | _ => rfl

theorem placeFields_paths {inside : String → Nat → String → LayoutResult Scope} {depth : Nat}
    (structs : ∀ name base path members, inside name base path = .ok members →
      members.listed.map Entry.path = c.pathsInside depth path (.struct name))
    {base : Nat} {pathOf : String → String} {fields : List Field} {cursor last : Cursor} {scope : Scope}
    (run : c.placeFields slots inside base pathOf cursor fields = .ok (last, scope)) :
    scope.listed.map Entry.path = pathsOf (c.pathsInside depth) pathOf fields := by
  induction fields generalizing cursor scope with
  | nil =>
    obtain ⟨_, rfl⟩ := Prod.mk.inj (Except.ok.inj run)
    rfl
  | cons f fs ih =>
    obtain ⟨e, next, members, rest, seated, opened, behind, rfl⟩ := placeFields_cons.mp run
    have inner : members.listed.map Entry.path = c.pathsInside depth e.path e.ty := by
      by_cases named : ∃ name, e.ty = .struct name
      · obtain ⟨name, named⟩ := named
        rw [named]
        exact structs name e.slot e.path members ((opens_struct named).mp opened)
      · have flat : ∀ name, e.ty ≠ .struct name := fun name same => named ⟨name, same⟩
        obtain rfl := (opens_plain flat).mp opened
        exact (pathsInside_plain flat depth e.path).symm
    rw [seated.path_eq, seated.ty_eq] at inner
    simp only [Scope.listed, List.map_append, List.map_cons, List.cons_append, pathsOf, List.flatMap_cons,
      inner, seated.path_eq]
    rw [ih behind, pathsOf]

theorem placeStruct_paths {depth : Nat} (more : Nat) {name : String} {base : Nat} {path : String}
    {members : Scope} (run : c.placeStruct slots depth name base path = .ok members) :
    members.listed.map Entry.path = c.pathsInside (depth + more) path (.struct name) := by
  induction depth generalizing name base path members with
  | zero => simp [placeStruct] at run
  | succ depth ih =>
    simp only [placeStruct] at run
    rw [Nat.add_right_comm]
    simp only [pathsInside]
    split at run
    · contradiction
    · rename_i d found
      obtain ⟨⟨stop, scope⟩, placed, eq⟩ := bind_eq_ok.mp run
      rw [← Except.ok.inj eq, found]
      exact placeFields_paths (fun _ _ _ _ opened => ih opened) placed

theorem layout_paths {declarations : List Declaration} {l : Layout}
    (run : c.layout declarations = .ok l) {depth : Nat} (deep : c.structs.length ≤ depth) :
    l.assignments.map Assignment.name = c.declaredPaths depth declarations := by
  obtain ⟨cursor, scope, place, listed, _⟩ := layout_placed run
  obtain ⟨sizes, _, _, placed⟩ := place_eq_ok.mp place
  obtain ⟨more, rfl⟩ := Nat.exists_eq_add_of_le deep
  rw [listed, List.map_map]
  exact placeFields_paths (fun _ _ _ _ opened => placeStruct_paths more opened) placed

end Catalog

/-- The names of a scope are told apart, and have no dot. -/
structure ToldApart (fields : List Field) : Prop where
  distinct : (fields.map Field.name).Nodup
  dotless : ∀ f ∈ fields, '.' ∉ f.name.toList

/-- The names are told apart among the declarations in storage and in each struct. -/
structure NamesApart (c : Catalog) (declarations : List Declaration) : Prop where
  declared : ToldApart (Catalog.stored declarations)
  members : ∀ name d, c.struct? name = some d → ToldApart d.fields

/-- A path that begins with a name: the name itself or what is below it. -/
def BeginsWith (name path : String) : Prop :=
  path = name ∨ ∃ rest, path = Catalog.memberPath name rest

theorem takeWhile_name {name rest : List Char} (dotless : '.' ∉ name)
    (ends : ∀ c ∈ rest.head?, c = '.') : (name ++ rest).takeWhile (· ≠ '.') = name := by
  have all : ∀ c ∈ name, decide (c ≠ '.') = true := by
    intro c mem
    have other : c ≠ '.' := fun same => dotless (same ▸ mem)
    exact decide_eq_true other
  rw [List.takeWhile_append_of_pos all]
  cases rest with
  | nil => simp
  | cons c rest =>
    obtain rfl := ends c rfl
    simp

theorem beginsWith_toList {lead name path : String} (begins : BeginsWith (lead ++ name) path) :
    ∃ rest : List Char, path.toList = lead.toList ++ (name.toList ++ rest) ∧
      ∀ c ∈ rest.head?, c = '.' := by
  rcases begins with rfl | ⟨rest, rfl⟩
  · exact ⟨[], by simp, by simp⟩
  · exact ⟨'.' :: rest.toList, by simp [Catalog.memberPath], by simp⟩

theorem name_unique {lead first second path : String} (dotlessFirst : '.' ∉ first.toList)
    (dotlessSecond : '.' ∉ second.toList) (begins : BeginsWith (lead ++ first) path)
    (again : BeginsWith (lead ++ second) path) : first = second := by
  obtain ⟨rest, eq, ends⟩ := beginsWith_toList begins
  obtain ⟨rest', eq', ends'⟩ := beginsWith_toList again
  have same := List.append_cancel_left (eq.symm.trans eq')
  have cut := congrArg (List.takeWhile (· ≠ '.')) same
  rw [takeWhile_name dotlessFirst ends, takeWhile_name dotlessSecond ends'] at cut
  exact String.toList_inj.mp cut

namespace Catalog

variable {c : Catalog}

theorem memberPath_below (path name rest : String) :
    memberPath (memberPath path name) rest = memberPath path (memberPath name rest) := by
  simp only [memberPath, String.append_assoc]

theorem ne_memberPath (path rest : String) : path ≠ memberPath path rest := by
  intro same
  have lengths := congrArg String.length same
  simp only [memberPath, String.length_append] at lengths
  have dot : ".".length = 1 := rfl
  omega

theorem pathsInside_below {depth : Nat} {path : String} {ty : TypeRef} :
    ∀ p ∈ c.pathsInside depth path ty, ∃ rest, p = memberPath path rest := by
  induction depth generalizing path ty with
  | zero =>
    intro p mem
    cases mem
  | succ depth ih =>
    intro p mem
    cases ty with
    | struct name =>
      simp only [pathsInside] at mem
      split at mem
      · obtain ⟨f, _, mem⟩ := List.mem_flatMap.mp mem
        rcases List.mem_cons.mp mem with rfl | mem
        · exact ⟨f.name, rfl⟩
        · obtain ⟨rest, rfl⟩ := ih p mem
          exact ⟨_, memberPath_below path f.name rest⟩
      · cases mem
    | _ => cases mem

/-- Members with names that are told apart have paths that are, if this holds inside each of them. -/
theorem pathsOf_nodup {inside : String → TypeRef → List String} {lead : String} {fields : List Field}
    (apart : ToldApart fields) (nodup : ∀ path ty, (inside path ty).Nodup)
    (below : ∀ path ty, ∀ p ∈ inside path ty, ∃ rest, p = memberPath path rest) :
    (pathsOf inside (lead ++ ·) fields).Nodup := by
  have begins : ∀ f : Field, ∀ p ∈ (lead ++ f.name) :: inside (lead ++ f.name) f.ty,
      BeginsWith (lead ++ f.name) p := by
    intro f p mem
    rcases List.mem_cons.mp mem with rfl | mem
    · exact Or.inl rfl
    · exact Or.inr (below _ _ p mem)
  apply List.nodup_flatMap.mpr
  constructor
  · intro f _
    apply List.nodup_cons.mpr
    constructor
    · intro mem
      obtain ⟨rest, same⟩ := below _ _ _ mem
      exact ne_memberPath _ _ same
    · exact nodup _ _
  · have names : fields.Pairwise fun f g => f.name ≠ g.name := List.pairwise_map.mp apart.distinct
    apply names.imp_of_mem
    intro f g memF memG differ p inF inG
    exact differ (name_unique (apart.dotless f memF) (apart.dotless g memG) (begins f p inF)
      (begins g p inG))

theorem pathsInside_nodup (members : ∀ name d, c.struct? name = some d → ToldApart d.fields)
    (depth : Nat) (path : String) (ty : TypeRef) : (c.pathsInside depth path ty).Nodup := by
  induction depth generalizing path ty with
  | zero => exact List.nodup_nil
  | succ depth ih =>
    cases ty with
    | struct name =>
      simp only [pathsInside]
      split
      · rename_i d found
        exact pathsOf_nodup (members name d found) ih (fun _ _ => pathsInside_below)
      · exact List.nodup_nil
    | _ => exact List.nodup_nil

theorem declaredPaths_nodup {declarations : List Declaration} (apart : NamesApart c declarations)
    (depth : Nat) : (c.declaredPaths depth declarations).Nodup := by
  have plain : (id : String → String) = ("" ++ ·) := by
    funext name
    exact (String.empty_append).symm
  unfold declaredPaths
  rw [plain]
  exact pathsOf_nodup apart.declared (pathsInside_nodup apart.members depth)
    (fun _ _ => pathsInside_below)

end Catalog

theorem Layout.named_of_get? {l : Layout} {path : String} {a : Assignment} (found : l.get? path = some a) :
    a ∈ l.assignments ∧ a.name = path := by
  have named := List.find?_some found
  exact ⟨List.mem_of_find?_eq_some found, of_decide_eq_true named⟩

theorem Layout.get?_eq_some {l : Layout} (distinct : (l.assignments.map Assignment.name).Nodup)
    {path : String} {a : Assignment} : l.get? path = some a ↔ a ∈ l.assignments ∧ a.name = path := by
  constructor
  · exact Layout.named_of_get?
  · rintro ⟨mem, rfl⟩
    cases found : l.get? a.name with
    | none =>
      have other := List.find?_eq_none.mp found a mem
      simp at other
    | some b =>
      obtain ⟨listed, named⟩ := Layout.named_of_get? found
      rw [List.inj_on_of_nodup_map distinct listed mem named]

/-- The assignments of a layout are those of the paths of its declarations, in their order. When the
names are told apart, so are the paths, and each finds its assignment. -/
structure PathLaw (c : Catalog) (declarations : List Declaration) (l : Layout) : Prop where
  listed : ∀ depth, c.structs.length ≤ depth →
    l.assignments.map Assignment.name = c.declaredPaths depth declarations
  distinct : NamesApart c declarations → (l.assignments.map Assignment.name).Nodup
  found : NamesApart c declarations → ∀ path a,
    l.get? path = some a ↔ a ∈ l.assignments ∧ a.name = path

theorem members_listed_once (c : Catalog) (declarations : List Declaration) (l : Layout)
    (run : c.layout declarations = .ok l) : PathLaw c declarations l := by
  have distinct : NamesApart c declarations → (l.assignments.map Assignment.name).Nodup := by
    intro apart
    rw [Catalog.layout_paths run (Nat.le_refl _)]
    exact Catalog.declaredPaths_nodup apart _
  constructor
  · intro depth deep
    exact Catalog.layout_paths run deep
  · exact distinct
  · intro apart path a
    exact Layout.get?_eq_some (distinct apart)

/-- Two wallets, and a list of wallets that has none in place. -/
def pocketsDeclarations : List Declaration :=
  [⟨"first", .struct "Wallet", none, .mutable⟩, ⟨"second", .struct "Wallet", none, .mutable⟩,
    ⟨"closed", .dynamicArray (.struct "Wallet"), none, .mutable⟩]

theorem pockets_namesApart : NamesApart walletCatalog pocketsDeclarations := by
  constructor
  · exact ⟨by decide, by decide⟩
  · intro name d found
    have mem := Catalog.struct?_mem found
    simp only [walletCatalog, List.mem_cons, List.not_mem_nil, or_false] at mem
    rcases mem with rfl | rfl
    · exact ⟨by decide, by decide⟩
    · exact ⟨by decide, by decide⟩

theorem pockets_listed_once :
    ∃ l, walletCatalog.layout pocketsDeclarations = .ok l ∧ NamesApart walletCatalog pocketsDeclarations ∧
      l.assignments.map Assignment.name =
        ["first", "first.owner", "first.limits", "first.limits.low", "first.limits.high",
          "second", "second.owner", "second.limits", "second.limits.low", "second.limits.high",
          "closed"] ∧ PathLaw walletCatalog pocketsDeclarations l :=
  ⟨_, rfl, pockets_namesApart, by decide,
    members_listed_once walletCatalog pocketsDeclarations _ rfl⟩

end ContractRegistry
