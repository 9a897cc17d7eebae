import ContractRegistry.Proofs.Layout.Nesting

/-!
Where every entry of a scope goes.

A scope begins at its first slot. From then on the place of an entry is fixed by the entry before it:
a value goes behind a value if the slot has room for both, and everything else begins the first slot
that is free. This holds of the declarations and of the members of every struct in place.
-/
namespace ContractRegistry

/-- Two values that lie in one slot, the second behind the first. -/
def Shares (a b : Entry) : Prop :=
  ∃ m n, a.ty.packedSize? = some m ∧ b.ty.packedSize? = some n ∧ a.offset + m + n ≤ slotBytes

/-- The entries of a scope that begins at slot `base` and has these members. The slots that an entry
takes are those of the footprint of its type. -/
structure PackingLaw (c : Catalog) (slots : String → LayoutResult Nat) (base : Nat)
    (pathOf : String → String) (fields : List Field) (entries : List Entry) : Prop where
  members : entries.map (fun e => (e.path, e.ty)) = fields.map fun f => (pathOf f.name, f.ty)
  measured : ∀ e ∈ entries, c.footprint slots e.path e.ty = .ok e.space
  first : ∀ e, entries.head? = some e → e.slot = base ∧ e.offset = 0
  shared : ∀ before a b after, entries = before ++ a :: b :: after →
    ∀ m n, a.ty.packedSize? = some m → b.ty.packedSize? = some n → a.offset + m + n ≤ slotBytes →
      b.slot = a.slot ∧ b.offset = a.offset + m
  fresh : ∀ before a b after, entries = before ++ a :: b :: after → ¬ Shares a b →
    b.slot = a.slot + a.space.slotsTaken ∧ b.offset = 0
  aligned : ∀ before e after, entries = before ++ e :: after → e.ty.packedSize? = none →
    e.offset = 0 ∧ ∀ next, after.head? = some next → next.offset = 0

section

variable {c : Catalog} {slots : String → LayoutResult Nat}

theorem seated_first {base : Nat} {path : String} {ty : TypeRef} {next : Cursor} {e : Entry}
    (sized : ty.Sized) (seated : Seated c slots base path ty .start e next) :
    e.slot = base ∧ e.offset = 0 := by
  obtain ⟨place, allotted, slot, offset⟩ := seated.allotted
  rw [slot, offset, Cursor.allot_start (Catalog.footprint_sized sized seated.measured) allotted]
  exact ⟨rfl, rfl⟩

theorem seated_shared {base m n : Nat} {pathA pathB : String} {tyA tyB : TypeRef}
    {cursor next last : Cursor} {a b : Entry} (first : Seated c slots base pathA tyA cursor a next)
    (second : Seated c slots base pathB tyB next b last) (packsA : a.ty.packedSize? = some m)
    (packsB : b.ty.packedSize? = some n) (room : a.offset + m + n ≤ slotBytes) :
    b.slot = a.slot ∧ b.offset = a.offset + m := by
  obtain ⟨placeA, allottedA, slotA, offsetA⟩ := first.allotted
  obtain ⟨placeB, allottedB, slotB, offsetB⟩ := second.allotted
  rw [first.ty_eq, ← Catalog.footprint_packed_iff first.measured] at packsA
  rw [second.ty_eq, ← Catalog.footprint_packed_iff second.measured] at packsB
  rw [packsA] at allottedA
  rw [packsB] at allottedB
  rw [offsetA] at room
  rw [slotA, slotB, offsetA, offsetB, Cursor.allot_shared allottedA allottedB room]
  exact ⟨rfl, rfl⟩

theorem seated_fresh {base : Nat} {pathA pathB : String} {tyA tyB : TypeRef}
    {cursor next last : Cursor} {a b : Entry} (sizedA : tyA.Sized) (sizedB : tyB.Sized)
    (first : Seated c slots base pathA tyA cursor a next)
    (second : Seated c slots base pathB tyB next b last) (apart : ¬ Shares a b) :
    b.slot = a.slot + a.space.slotsTaken ∧ b.offset = 0 := by
  obtain ⟨placeA, allottedA, slotA, offsetA⟩ := first.allotted
  obtain ⟨placeB, allottedB, slotB, offsetB⟩ := second.allotted
  have full : ∀ m n, a.space = .packed m → b.space = .packed n →
      slotBytes < placeA.offset + m + n := by
    intro m n spaceA spaceB
    rw [Catalog.footprint_packed_iff first.measured, ← first.ty_eq] at spaceA
    rw [Catalog.footprint_packed_iff second.measured, ← second.ty_eq] at spaceB
    refine Nat.lt_of_not_le fun room => apart ⟨m, n, spaceA, spaceB, ?_⟩
    rw [offsetA]
    exact room
  have goes := Cursor.allot_fresh (Catalog.footprint_sized sizedA first.measured)
    (Catalog.footprint_sized sizedB second.measured) allottedA allottedB full
  rw [slotA, slotB, offsetB, goes]
  exact ⟨(Nat.add_assoc _ _ _).symm, rfl⟩

inductive Row (c : Catalog) (slots : String → LayoutResult Nat) (base : Nat)
    (pathOf : String → String) : Cursor → List Field → Cursor → List Entry → Prop where
  | done (cursor : Cursor) : Row c slots base pathOf cursor [] cursor []
  | next {cursor next last : Cursor} {f : Field} {fs : List Field} {e : Entry} {es : List Entry}
      (seated : Seated c slots base (pathOf f.name) f.ty cursor e next)
      (tail : Row c slots base pathOf next fs last es) :
      Row c slots base pathOf cursor (f :: fs) last (e :: es)

variable {base : Nat} {pathOf : String → String} {cursor last : Cursor} {fields : List Field}

theorem placed_row {scope : Scope} (placed : Placed c slots base pathOf cursor fields last scope) :
    Row c slots base pathOf cursor fields last scope.entries := by
  induction placed with
  | done => exact .done _
  | plain seated _ _ ih => exact .next seated ih
  | struct seated _ _ _ _ _ ih => exact .next seated ih

theorem row_members {entries : List Entry} (row : Row c slots base pathOf cursor fields last entries) :
    entries.map (fun e => (e.path, e.ty)) = fields.map fun f => (pathOf f.name, f.ty) := by
  induction row with
  | done => rfl
  | next seated _ ih => simp [ih, seated.path_eq, seated.ty_eq]

theorem row_split {before after : List Entry} {e : Entry}
    (row : Row c slots base pathOf cursor fields last (before ++ e :: after)) :
    ∃ f origin next rest, f ∈ fields ∧ rest ⊆ fields ∧ (before = [] → origin = cursor) ∧
      Seated c slots base (pathOf f.name) f.ty origin e next ∧
      Row c slots base pathOf next rest last after := by
  induction before generalizing cursor fields with
  | nil =>
    cases row with
    | @next _ next _ f fs _ _ seated tail =>
      exact ⟨f, cursor, next, fs, List.mem_cons_self, List.subset_cons_self f fs, fun _ => rfl,
        seated, tail⟩
  | cons x before ih =>
    cases row with
    | @next _ next _ g fs _ _ seated tail =>
      obtain ⟨f, origin, stop, rest, mem, sub, _, found, behind⟩ := ih tail
      exact ⟨f, origin, stop, rest, List.mem_cons_of_mem g mem,
        List.Subset.trans sub (List.subset_cons_self g fs), by simp, found, behind⟩

theorem row_pair {before after : List Entry} {a b : Entry}
    (row : Row c slots base pathOf cursor fields last (before ++ a :: b :: after)) :
    ∃ f g origin next stop, f ∈ fields ∧ g ∈ fields ∧
      Seated c slots base (pathOf f.name) f.ty origin a next ∧
      Seated c slots base (pathOf g.name) g.ty next b stop := by
  obtain ⟨f, origin, next, rest, mem, sub, _, first, behind⟩ := row_split row
  cases behind with
  | @next _ stop _ g fs _ _ second tail =>
    exact ⟨f, g, origin, next, stop, mem, sub List.mem_cons_self, first, second⟩

theorem row_law {entries : List Entry} (sized : ∀ f ∈ fields, f.ty.Sized)
    (row : Row c slots base pathOf .start fields last entries) :
    PackingLaw c slots base pathOf fields entries where
  members := row_members row
  measured := by
    intro e mem
    obtain ⟨before, after, rfl⟩ := List.append_of_mem mem
    obtain ⟨f, origin, next, rest, _, _, _, seated, _⟩ := row_split row
    rw [seated.path_eq, seated.ty_eq]
    exact seated.measured
  first := by
    intro e head
    cases row with
    | done => simp at head
    | @next _ next _ f fs _ es seated tail =>
      obtain rfl := Option.some.inj head
      exact seated_first (sized f List.mem_cons_self) seated
  shared := by
    rintro before a b after rfl m n packsA packsB room
    obtain ⟨f, g, origin, next, stop, _, _, first, second⟩ := row_pair row
    exact seated_shared first second packsA packsB room
  fresh := by
    rintro before a b after rfl apart
    obtain ⟨f, g, origin, next, stop, memA, memB, first, second⟩ := row_pair row
    exact seated_fresh (sized f memA) (sized g memB) first second apart
  aligned := by
    rintro before e after rfl whole
    obtain ⟨f, origin, next, rest, mem, sub, _, seated, behind⟩ := row_split row
    refine ⟨seated_aligned seated (by rw [← seated.ty_eq]; exact whole), ?_⟩
    intro b head
    cases behind with
    | done => simp at head
    | @next _ stop _ g fs follower es second tail =>
      rw [← Option.some.inj head]
      have apart : ¬ Shares e follower := by
        rintro ⟨m, n, packs, _⟩
        simp [whole] at packs
      exact (seated_fresh (sized f mem) (sized g (sub List.mem_cons_self)) seated second apart).2

theorem placed_inner {scope members : Scope} {e : Entry} {name : String}
    (placed : Placed c slots base pathOf cursor fields last scope)
    (mem : (e, members) ∈ scope.inner) (named : e.ty = .struct name) :
    ∃ d stop, c.struct? name = some d ∧
      Placed c slots e.slot (Catalog.memberPath e.path) .start d.fields stop members := by
  induction placed with
  | done => simp [Scope.inner] at mem
  | plain _ flat _ ih =>
    simp only [Scope.inner, List.cons_append, List.nil_append, List.mem_cons] at mem
    rcases mem with same | mem
    · obtain ⟨rfl, rfl⟩ := Prod.mk.inj same
      exact absurd named (flat name)
    · exact ih mem
  | struct _ known found inside _ inner ih =>
    simp only [Scope.inner, List.cons_append, List.mem_cons, List.mem_append] at mem
    rcases mem with same | mem | mem
    · obtain ⟨rfl, rfl⟩ := Prod.mk.inj same
      rw [known] at named
      obtain rfl := TypeRef.struct.inj named
      exact ⟨_, _, found, inside⟩
    · exact inner mem
    · exact ih mem

end

/-- In a layout the declarations and the members of every struct in place are packed by the same law. -/
theorem every_scope_packed (c : Catalog) (declarations : List Declaration) (l : Layout)
    (types : c.Sized) (declared : ∀ d ∈ declarations, d.ty.Sized)
    (run : c.layout declarations = .ok l) :
    ∃ sizes cursor scope, c.sizes = .ok sizes ∧ c.place declarations = .ok (cursor, scope) ∧
      l.assignments = scope.listed.map c.assignment ∧
      PackingLaw c sizes.slots 0 id (Catalog.stored declarations) scope.entries ∧
      ∀ e members name, (e, members) ∈ scope.inner → e.ty = .struct name →
        ∃ d, c.struct? name = some d ∧
          PackingLaw c sizes.slots e.slot (Catalog.memberPath e.path) d.fields members.entries := by
  obtain ⟨cursor, scope, place, listed, _⟩ := Catalog.layout_placed run
  obtain ⟨sizes, measured, placed⟩ := Catalog.place_placed place
  refine ⟨sizes, cursor, scope, measured, place, listed,
    row_law (stored_sized declared) (placed_row placed), ?_⟩
  intro e members name mem named
  obtain ⟨d, stop, found, inside⟩ := placed_inner placed mem named
  exact ⟨d, found, row_law (fields_sized types found) (placed_row inside)⟩

/-- Values before and behind what begins a slot: flags that fill more than one, and a wallet. -/
def mixedDeclarations : List Declaration :=
  [⟨"low", .elementary (.uint 16), none, .mutable⟩, ⟨"high", .elementary (.int 128), none, .mutable⟩,
    ⟨"flags", .fixedArray (.elementary .bool) 33, none, .mutable⟩,
    ⟨"kind", .elementary (.uint 8), none, .mutable⟩, ⟨"limit", .elementary (.uint 256), none, .constant⟩,
    ⟨"owner", .elementary .address, none, .mutable⟩, ⟨"wallet", .struct "Wallet", none, .mutable⟩]

theorem mixed_scopes_packed :
    ∃ l, walletCatalog.layout mixedDeclarations = .ok l ∧
      l.assignments.map (fun a => (a.slot, a.offset)) =
        [(0, 0), (0, 2), (1, 0), (3, 0), (3, 1), (4, 0), (4, 0), (5, 0), (5, 0), (6, 0)] ∧
      ∃ sizes cursor scope, walletCatalog.sizes = .ok sizes ∧
        walletCatalog.place mixedDeclarations = .ok (cursor, scope) ∧
        l.assignments = scope.listed.map walletCatalog.assignment ∧
        PackingLaw walletCatalog sizes.slots 0 id (Catalog.stored mixedDeclarations) scope.entries ∧
        ∀ e members name, (e, members) ∈ scope.inner → e.ty = .struct name →
          ∃ d, walletCatalog.struct? name = some d ∧
            PackingLaw walletCatalog sizes.slots e.slot (Catalog.memberPath e.path) d.fields
              members.entries :=
  ⟨_, rfl, by decide, every_scope_packed walletCatalog mixedDeclarations _ walletCatalog_sized
    (by simp [mixedDeclarations, TypeRef.Sized, Elementary.Sized, Elementary.packedSize?,
      addressBytes, slotBytes]) rfl⟩

end ContractRegistry
