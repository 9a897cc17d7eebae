import ContractRegistry.Json.Value
import ContractRegistry.Store

/-!
Entries sorted by their keys. Members of an object, names of events and contracts are all put in their
places in the same way.
-/
namespace ContractRegistry

theorem mem_of_lookup {κ α : Type} [BEq κ] [LawfulBEq κ] {entries : List (κ × α)}
    {key : κ} {value : α} (found : entries.lookup key = some value) : (key, value) ∈ entries := by
  obtain ⟨before, after, parts, -⟩ := List.lookup_eq_some_iff.mp found
  rw [parts]
  exact List.mem_append_right _ List.mem_cons_self

section
variable {κ α : Type} [LT κ] [DecidableLT κ]

def Ordered (entries : List (κ × α)) : Prop :=
  entries.Pairwise fun a b => a.1 < b.1

def insertEntry (key : κ) (value : α) : List (κ × α) → List (κ × α)
  | [] => [(key, value)]
  | (other, old) :: rest =>
    if key < other then (key, value) :: (other, old) :: rest
    else if other < key then (other, old) :: insertEntry key value rest
    else (key, value) :: rest

theorem mem_of_mem_insertEntry {key : κ} {value : α} {entries : List (κ × α)} {e : κ × α}
    (member : e ∈ insertEntry key value entries) : e = (key, value) ∨ e ∈ entries := by
  induction entries with
  | nil => simpa [insertEntry] using member
  | cons first rest ih =>
    simp only [insertEntry] at member
    split at member
    · simpa using member
    split at member
    · rcases List.mem_cons.mp member with rfl | later
      · exact .inr List.mem_cons_self
      · exact (ih later).imp_right (List.mem_cons_of_mem first)
    · rcases List.mem_cons.mp member with same | later
      · exact .inl same
      · exact .inr (List.mem_cons_of_mem first later)

theorem forall_mem_insertEntry {P : κ × α → Prop} {key : κ} {value : α} {entries : List (κ × α)}
    (new : P (key, value)) (others : ∀ e ∈ entries, P e) : ∀ e ∈ insertEntry key value entries, P e := by
  intro e member
  rcases mem_of_mem_insertEntry member with rfl | earlier
  · exact new
  · exact others e earlier

theorem mem_of_mem_foldl_insertEntry {entries : List (κ × α)} {e : κ × α}
    (member : e ∈ entries.foldl (fun placed e => insertEntry e.1 e.2 placed) []) : e ∈ entries := by
  suffices grow : ∀ (placed : List (κ × α)),
      e ∈ entries.foldl (fun placed e => insertEntry e.1 e.2 placed) placed →
        e ∈ placed ∨ e ∈ entries by
    exact (grow [] member).resolve_left List.not_mem_nil
  clear member
  induction entries with
  | nil => exact fun placed member => .inl member
  | cons first rest ih =>
    intro placed member
    rcases ih _ member with earlier | later
    · rcases mem_of_mem_insertEntry earlier with rfl | earlier
      · exact .inr List.mem_cons_self
      · exact .inl earlier
    · exact .inr (List.mem_cons_of_mem first later)

variable [LE κ] [Std.IsLinearOrder κ] [Std.LawfulOrderLT κ]

theorem ordered_insertEntry (key : κ) (value : α) {entries : List (κ × α)}
    (ordered : Ordered entries) : Ordered (insertEntry key value entries) := by
  induction entries with
  | nil => exact List.pairwise_singleton _ _
  | cons first rest ih =>
    obtain ⟨below, tail⟩ := List.pairwise_cons.mp ordered
    simp only [insertEntry]
    split
    · next before =>
      refine List.pairwise_cons.mpr ⟨?_, ordered⟩
      intro e member
      rcases List.mem_cons.mp member with rfl | later
      · exact before
      · exact Std.lt_trans before (below e later)
    split
    · next after =>
      refine List.pairwise_cons.mpr ⟨?_, ih tail⟩
      intro e member
      rcases mem_of_mem_insertEntry member with rfl | later
      · exact after
      · exact below e later
    · next before after =>
      have same : key = first.1 := by
        rcases Std.lt_trichotomy key first.1 with less | same | greater
        · exact absurd less before
        · exact same
        · exact absurd greater after
      subst same
      exact List.pairwise_cons.mpr ⟨below, tail⟩

theorem insertEntry_last {key : κ} (value : α) {entries : List (κ × α)}
    (below : ∀ e ∈ entries, e.1 < key) : insertEntry key value entries = entries ++ [(key, value)] := by
  induction entries with
  | nil => rfl
  | cons first rest ih =>
    have less := below first List.mem_cons_self
    have before : ¬ key < first.1 := fun greater => Std.lt_irrefl (Std.lt_trans less greater)
    rw [insertEntry, if_neg before, if_pos less,
      ih fun e member => below e (List.mem_cons_of_mem first member)]
    rfl

theorem mem_insertEntry_of_ne {key : κ} (value : α) {entries : List (κ × α)} {e : κ × α}
    (member : e ∈ entries) (other : e.1 ≠ key) : e ∈ insertEntry key value entries := by
  induction entries with
  | nil => exact absurd member List.not_mem_nil
  | cons first rest ih =>
    simp only [insertEntry]
    split
    · exact List.mem_cons_of_mem _ member
    split
    · rcases List.mem_cons.mp member with rfl | later
      · exact List.mem_cons_self
      · exact List.mem_cons_of_mem first (ih later)
    · next before after =>
      rcases List.mem_cons.mp member with rfl | later
      · rcases Std.lt_trichotomy key e.1 with less | same | greater
        · exact absurd less before
        · exact absurd same.symm other
        · exact absurd greater after
      · exact List.mem_cons_of_mem _ later

theorem lookup_insertEntry [BEq κ] [LawfulBEq κ] (key k : κ) (value : α) (entries : List (κ × α)) :
    (insertEntry key value entries).lookup k = if k == key then some value else entries.lookup k := by
  induction entries with
  | nil => cases same : k == key <;> simp [insertEntry, List.lookup_cons, same]
  | cons first rest ih =>
    obtain ⟨other, old⟩ := first
    rw [insertEntry]
    split
    · cases same : k == key <;> simp [List.lookup_cons, same]
    split
    · next after =>
      rw [List.lookup_cons, List.lookup_cons]
      cases same : k == other with
      | true =>
        obtain rfl := LawfulBEq.eq_of_beq same
        have apart : (k == key) = false := by
          rw [beq_eq_false_iff_ne]
          rintro rfl
          exact Std.lt_irrefl after
        simp [apart]
      | false => exact ih
    · next before after =>
      have same : key = other := by
        rcases Std.lt_trichotomy key other with less | same | greater
        · exact absurd less before
        · exact same
        · exact absurd greater after
      subst same
      cases same : k == key <;> simp [List.lookup_cons, same]

theorem foldl_insertEntry {entries : List (κ × α)} (ordered : Ordered entries) :
    entries.foldl (fun placed e => insertEntry e.1 e.2 placed) [] = entries := by
  suffices grow : ∀ (before after : List (κ × α)), Ordered (before ++ after) →
      after.foldl (fun placed e => insertEntry e.1 e.2 placed) before = before ++ after from
    grow [] entries ordered
  intro before after
  induction after generalizing before with
  | nil => simp
  | cons e after ih =>
    intro ordered
    have below : ∀ a ∈ before, a.1 < e.1 := fun a member =>
      (List.pairwise_append.mp ordered).2.2 a member e List.mem_cons_self
    rw [List.foldl_cons, insertEntry_last e.2 below,
      ih (before ++ [e]) (by simpa [List.append_assoc] using ordered)]
    simp

theorem ordered_foldl_insertEntry (entries : List (κ × α)) :
    Ordered (entries.foldl (fun placed e => insertEntry e.1 e.2 placed) []) := by
  suffices grow : ∀ (placed : List (κ × α)), Ordered placed →
      Ordered (entries.foldl (fun placed e => insertEntry e.1 e.2 placed) placed) from
    grow [] List.Pairwise.nil
  induction entries with
  | nil => exact fun placed ordered => ordered
  | cons first rest ih => exact fun placed ordered => ih _ (ordered_insertEntry first.1 first.2 ordered)

end

theorem lookup_of_mem {κ α : Type} [LT κ] [LE κ] [Std.LawfulOrderLT κ] [BEq κ] [LawfulBEq κ]
    {entries : List (κ × α)} (ordered : Ordered entries) {e : κ × α} (member : e ∈ entries) :
    entries.lookup e.1 = some e.2 := by
  obtain ⟨before, after, parts⟩ := List.append_of_mem member
  refine List.lookup_eq_some_iff.mpr ⟨before, after, parts, ?_⟩
  intro d earlier
  rw [parts, Ordered, List.pairwise_append] at ordered
  have less := ordered.2.2 d earlier e List.mem_cons_self
  rw [bne_iff_ne]
  intro same
  rw [same] at less
  exact Std.lt_irrefl less

namespace Json
variable {α : Type}

theorem insertMember_eq_insertEntry (name : String) (value : α) (members : List (String × α)) :
    insertMember name value members = insertEntry name value members := by
  induction members with
  | nil => rfl
  | cons m rest ih => rw [insertMember, insertEntry, ih]

theorem sortMembers_eq_foldl (members : List (String × α)) :
    sortMembers members = members.foldl (fun placed m => insertEntry m.1 m.2 placed) [] := by
  simp only [sortMembers, insertMember_eq_insertEntry]

end Json

theorem Store.place_eq_insertEntry (id : Nat) (c : Contract) (contracts : List (Nat × Contract)) :
    Store.place id c contracts = insertEntry id c contracts := by
  induction contracts with
  | nil => rfl
  | cons entry rest ih => rw [Store.place, insertEntry, ih]

end ContractRegistry
