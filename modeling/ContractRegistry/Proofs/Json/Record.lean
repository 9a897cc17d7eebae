import ContractRegistry.Json.Record
import ContractRegistry.Proofs.Json.Written
import Mathlib.Data.List.Forall2

/-!
Members of a written object are found under their names, and the fields of a record in any order.
-/
namespace ContractRegistry.Json

theorem mapM_map_ite {α β : Type} {P : β → Prop} [DecidablePred P] (write : β → α)
    (read : α → Option β) (xs : List β)
    (each : ∀ x ∈ xs, read (write x) = if P x then some x else none) :
    (xs.map write).mapM read = if ∀ x ∈ xs, P x then some xs else none := by
  induction xs with
  | nil => simp
  | cons x xs ih =>
    have first := each x List.mem_cons_self
    have others := ih fun y member => each y (List.mem_cons_of_mem x member)
    simp only [List.map_cons, List.mapM_cons, first, others, List.forall_mem_cons]
    by_cases here : P x
    · by_cases there : ∀ y ∈ xs, P y
      · rw [if_pos here, if_pos there, if_pos ⟨here, there⟩]
        rfl
      · have fails : ¬ (P x ∧ ∀ y ∈ xs, P y) := fun both => there both.2
        rw [if_pos here, if_neg there, if_neg fails]
        rfl
    · have fails : ¬ (P x ∧ ∀ y ∈ xs, P y) := fun both => here both.1
      rw [if_neg here, if_neg fails]
      rfl

theorem mapM_map {α β γ : Type} (write : β → α) (read : α → Option γ) (result : β → γ)
    (xs : List β) (each : ∀ x ∈ xs, read (write x) = some (result x)) :
    (xs.map write).mapM read = some (xs.map result) := by
  induction xs with
  | nil => rfl
  | cons x xs ih =>
    have first := each x List.mem_cons_self
    have others := ih fun y member => each y (List.mem_cons_of_mem x member)
    rw [List.map_cons, List.mapM_cons, first, others]
    rfl

theorem named?_memberTrees (fields : List (String × Value)) :
    Tree.named? (Value.memberTrees fields) = some (fields.map fun f => (f.1, f.2.tree)) := by
  rw [Value.memberTrees_eq_map, Tree.named?]
  exact mapM_map _ _ _ fields fun f _ => by simp [contentText?_escaped]

theorem filter_key {α : Type} (entries : List (String × α)) (distinct : (entries.map Prod.fst).Nodup)
    (e : String × α) (member : e ∈ entries) :
    entries.filter (fun m => [e.1].contains m.1) = [e] := by
  induction entries with
  | nil => exact absurd member List.not_mem_nil
  | cons first rest ih =>
    obtain ⟨fresh, tail⟩ := List.nodup_cons.mp distinct
    rcases List.mem_cons.mp member with rfl | later
    · have others : rest.filter (fun m => [e.1].contains m.1) = [] := by
        refine List.filter_eq_nil_iff.mpr fun m given => ?_
        have other : m.1 ≠ e.1 := fun same => fresh (same ▸ List.mem_map_of_mem given)
        simpa using other
      simpa using others
    · have other : first.1 ≠ e.1 := fun same => fresh (same ▸ List.mem_map_of_mem later)
      have skipped := ih tail later
      simpa [other] using skipped

theorem onlyMember?_of_perm {members others : List (String × Tree)} {m : String × Tree} {names : List String}
    (order : members.Perm (m :: others)) (own : m.1 ∈ names) (apart : ∀ o ∈ others, o.1 ∉ names) :
    Tree.onlyMember? members names = some (some m.2) := by
  have none : others.filter (fun o => names.contains o.1) = [] :=
    List.filter_eq_nil_iff.mpr fun o given => by simpa using apart o given
  have one : members.filter (fun o => names.contains o.1) = [m] := by
    have found := order.filter fun o => names.contains o.1
    rw [List.filter_cons_of_pos (by simpa using own), none] at found
    exact List.perm_singleton.mp found
  rw [Tree.onlyMember?, one]

theorem names_of_mem {fields : List (List String)} {given : List (String × Tree)}
    (named : List.Forall₂ (fun names m => m.1 ∈ names) fields given) {m : String × Tree}
    (member : m ∈ given) : ∃ names ∈ fields, m.1 ∈ names := by
  induction named with
  | nil => contradiction
  | cons own _ ih =>
    rcases List.mem_cons.mp member with rfl | later
    · exact ⟨_, List.mem_cons_self, own⟩
    · obtain ⟨names, field, own⟩ := ih later
      exact ⟨names, List.mem_cons_of_mem _ field, own⟩

/-- Every field is found when each is given under one of its names and nothing else stands under any. -/
theorem mapM_onlyMember? {members given others : List (String × Tree)} {fields : List (List String)}
    (order : members.Perm (given ++ others)) (disjoint : fields.Pairwise List.Disjoint)
    (named : List.Forall₂ (fun names key => key ∈ names) fields (given.map Prod.fst))
    (apart : ∀ o ∈ others, ∀ names ∈ fields, o.1 ∉ names) :
    fields.mapM (Tree.onlyMember? members) = some (given.map fun m => some m.2) := by
  rw [List.forall₂_map_right_iff] at named
  induction named generalizing others with
  | nil => rfl
  | @cons names m fields given own later ih =>
    obtain ⟨foreign, disjoint⟩ := List.pairwise_cons.mp disjoint
    obtain ⟨apart, apart'⟩ : (∀ o ∈ others, o.1 ∉ names) ∧ ∀ o ∈ others, ∀ names ∈ fields, o.1 ∉ names := by
      simpa only [List.forall_mem_cons, forall_and] using apart
    have first : Tree.onlyMember? members names = some (some m.2) := by
      refine onlyMember?_of_perm order own fun o member => ?_
      rcases List.mem_append.mp member with field | other
      · obtain ⟨names', field', own'⟩ := names_of_mem later field
        exact fun both => foreign names' field' both own'
      · exact apart o other
    have rest : fields.mapM (Tree.onlyMember? members) = some (given.map fun m => some m.2) := by
      refine ih (order.trans List.perm_middle.symm) disjoint ?_
      exact List.forall_mem_cons.mpr ⟨fun names' field => foreign names' field own, apart'⟩
    rw [List.mapM_cons, first, rest]
    rfl

end ContractRegistry.Json
