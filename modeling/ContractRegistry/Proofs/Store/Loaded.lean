import ContractRegistry.Proofs.Store.Reload
import Mathlib.Data.List.Nodup

/-!
Which numbers a loaded store gives away.

Loading reads the two counters as they stand beside the tables of a snapshot. Numbers are given from the
counters on. So no number is given twice exactly when no number in a table is above its counter, as it is
in every snapshot that was saved. A number above the counter comes up when enough is stored behind it.
-/
namespace ContractRegistry

theorem exists_unused {α : Type} (thing : Nat → α) (used : List α)
    (apart : ∀ i j, i ≤ used.length → j ≤ used.length → thing i = thing j → i = j) :
    ∃ a, a ∉ used := by
  by_contra all
  simp only [not_exists, not_not] at all
  have distinct : ((List.range (used.length + 1)).map thing).Nodup := by
    apply List.Nodup.map_on
    · intro i first j second same
      rw [List.mem_range] at first second
      exact apart i j (by omega) (by omega) same
    · exact List.nodup_range
  have within : (List.range (used.length + 1)).map thing ⊆ used := fun a _ => all a
  have fewer := distinct.length_le_of_subset within
  rw [List.length_map, List.length_range] at fewer
  omega

theorem exists_new_name (names : List String) : ∃ name, name ∉ names := by
  apply exists_unused (fun n => String.ofList (List.replicate n 'a'))
  intro i j _ _ same
  have lengths := congrArg (fun text => text.toList.length) same
  simpa using lengths

theorem exists_new_address {contracts : List (Nat × Contract)} (ordered : Ordered contracts)
    (small : ∀ e ∈ contracts, e.1 < Numeral.limit64) :
    ∃ address : Address, ∀ e ∈ contracts, e.2.address ≠ address := by
  have numbers : contracts.length ≤ Numeral.limit64 := by
    have distinct : (contracts.map Prod.fst).Nodup := by
      rw [List.Nodup, List.pairwise_map]
      exact ordered.imp fun less same => by omega
    have within : contracts.map Prod.fst ⊆ List.range Numeral.limit64 := by
      intro id member
      obtain ⟨e, stored, rfl⟩ := List.mem_map.mp member
      exact List.mem_range.mpr (small e stored)
    simpa using distinct.length_le_of_subset within
  obtain ⟨address, new⟩ : ∃ address, address ∉ contracts.map fun e => e.2.address := by
    apply exists_unused (BitVec.ofNat 160)
    intro i j first second same
    rw [List.length_map] at first second
    have values := congrArg BitVec.toNat same
    simp only [BitVec.toNat_ofNat, Numeral.limit64] at values numbers
    omega
  refine ⟨address, ?_⟩
  intro e stored same
  exact new (List.mem_map.mpr ⟨e, stored, same⟩)

namespace Store

/-- Naming events and storing contracts leads from one store to another. -/
inductive Leads (s : Store) : Store → Prop where
  | here : Leads s s
  | eventId {t u : Store} {name : String} {id : Nat} (before : Leads s t)
    (step : t.eventId name = .ok (id, u)) : Leads s u
  | insert {t u : Store} {c : Contract} {id : Nat} (before : Leads s t)
    (step : t.insert c = .ok (id, u)) : Leads s u

def ContractsCounted (s : Store) : Prop :=
  ∀ e ∈ s.contracts, e.1 ≤ s.lastContract

def EventsCounted (s : Store) : Prop :=
  ∀ e ∈ s.events, e.2 ≤ s.lastEvent

variable {s t u : Store}

theorem Leads.trans (first : s.Leads t) (second : t.Leads u) : s.Leads u := by
  induction second with
  | here => exact first
  | eventId _ step ih => exact .eventId ih step
  | insert _ step ih => exact .insert ih step

theorem id_of_new {name : String} {id : Nat} (new : s.events.lookup name = none)
    (step : s.eventId name = .ok (id, t)) : id = s.lastEvent + 1 := by
  by_cases room : s.lastEvent + 1 < Numeral.limit64
  · rw [eventId_of_new new room] at step
    exact (congrArg Prod.fst (Except.ok.inj step)).symm
  · rw [eventId_of_full new (by omega)] at step
    contradiction

theorem contractsCounted_of_leads (counted : s.ContractsCounted) (leads : s.Leads t) :
    t.ContractsCounted := by
  induction leads with
  | here => exact counted
  | eventId _ step ih =>
    rcases eventId_cases step with rfl | ⟨-, -, rfl⟩
    · exact ih
    · exact ih
  | @insert t u c id _ step ih =>
    obtain ⟨same, -, rfl⟩ := insert_cases step
    rw [place_eq_insertEntry]
    refine forall_mem_insertEntry (Nat.le_refl id) ?_
    intro e stored
    have below := ih e stored
    simp only
    omega

theorem eventsCounted_of_leads (counted : s.EventsCounted) (leads : s.Leads t) : t.EventsCounted := by
  induction leads with
  | here => exact counted
  | @eventId t u name id _ step ih =>
    rcases eventId_cases step with rfl | ⟨same, -, rfl⟩
    · exact ih
    · rw [Json.insertMember_eq_insertEntry]
      refine forall_mem_insertEntry (Nat.le_refl id) ?_
      intro e known
      have below := ih e known
      simp only
      omega
  | insert _ step ih =>
    obtain ⟨-, -, rfl⟩ := insert_cases step
    exact ih

theorem lastContract_le_of_leads (leads : s.Leads t) : s.lastContract ≤ t.lastContract := by
  induction leads with
  | here => exact Nat.le_refl _
  | eventId _ step ih =>
    rcases eventId_cases step with rfl | ⟨-, -, rfl⟩
    · exact ih
    · exact ih
  | insert _ step ih =>
    obtain ⟨same, -, rfl⟩ := insert_cases step
    simp only
    omega

theorem contract?_eq_none {id : Nat} (counted : s.ContractsCounted) (above : s.lastContract < id) :
    s.contract? id = none := by
  rw [contract?, List.lookup_eq_none_iff]
  intro e member
  have below := counted e member
  simp only [bne_iff_ne]
  omega

theorem contract?_of_leads (counted : s.ContractsCounted) (leads : s.Leads t) {id : Nat} {c : Contract}
    (stored : s.contract? id = some c) : t.contract? id = some c := by
  induction leads with
  | here => exact stored
  | eventId _ step ih =>
    rcases eventId_cases step with rfl | ⟨-, -, rfl⟩
    · exact ih
    · exact ih
  | @insert t u new given before step ih =>
    have free := contract?_eq_none (contractsCounted_of_leads counted before) (Nat.lt_succ_self _)
    obtain ⟨rfl, -, rfl⟩ := insert_cases step
    have other : id ≠ t.lastContract + 1 := by
      rintro rfl
      rw [ih] at free
      contradiction
    unfold contract? at ih ⊢
    rw [place_eq_insertEntry, lookup_insertEntry, beq_false_of_ne other]
    exact ih

theorem overwritten (ordered : Ordered s.contracts) (small : ∀ e ∈ s.contracts, e.1 < Numeral.limit64)
    {e : Nat × Contract} (stored : e ∈ s.contracts) (above : s.lastContract < e.1) :
    ∃ t c id u, s.Leads t ∧ t.insert c = .ok (id, u) ∧ t.contract? id ≠ none := by
  induction gap : e.1 - s.lastContract using Nat.strongRecOn generalizing s with
  | ind n ih =>
    have within := small e stored
    have room : s.lastContract + 1 < Numeral.limit64 := by omega
    obtain ⟨address, new⟩ := exists_new_address ordered small
    have step := insert_of_new (c := ⟨address, "", .null, ⟨[], 0⟩, []⟩) (hasAddress_eq_false new) room
    by_cases free : s.contract? (s.lastContract + 1) = none
    · have other : e.1 ≠ s.lastContract + 1 := by
        intro same
        rw [contract?, List.lookup_eq_none_iff] at free
        simpa [same] using free e stored
      -- The new contract has the number between, so the gap is smaller.
      generalize grown : insertEntry (s.lastContract + 1) _ s.contracts = contracts at step
      have ordered' : Ordered contracts := grown ▸ ordered_insertEntry _ _ ordered
      have stored' : e ∈ contracts := grown ▸ mem_insertEntry_of_ne _ stored other
      have small' : ∀ d ∈ contracts, d.1 < Numeral.limit64 :=
        grown ▸ forall_mem_insertEntry room small
      obtain ⟨t, c, id, u, leads, again, used⟩ := ih (e.1 - (s.lastContract + 1)) (by omega)
        (s := { s with lastContract := s.lastContract + 1, contracts := contracts })
        ordered' small' stored' (by simp only; omega) rfl
      exact ⟨t, c, id, u, (Leads.insert .here step).trans leads, again, used⟩
    · exact ⟨s, _, _, _, .here, step, free⟩

theorem reused (ordered : Ordered s.events) (small : ∀ e ∈ s.events, e.2 < Numeral.limit64)
    {e : String × Nat} (known : e ∈ s.events) (above : s.lastEvent < e.2) :
    ∃ t name id u other, s.Leads t ∧ t.events.lookup name = none ∧ t.eventId name = .ok (id, u) ∧
      t.events.lookup other = some id := by
  induction gap : e.2 - s.lastEvent using Nat.strongRecOn generalizing s with
  | ind n ih =>
    have within := small e known
    have room : s.lastEvent + 1 < Numeral.limit64 := by omega
    obtain ⟨name, new⟩ := exists_new_name (s.events.map Prod.fst)
    have absent : s.events.lookup name = none := by
      rw [List.lookup_eq_none_iff]
      intro d member
      rw [bne_iff_ne]
      rintro rfl
      exact new (List.mem_map_of_mem member)
    have step := eventId_of_new absent room
    by_cases last : e.2 = s.lastEvent + 1
    · have same := lookup_of_mem ordered known
      rw [last] at same
      exact ⟨s, name, _, _, e.1, .here, absent, step, same⟩
    · generalize grown : insertEntry name (s.lastEvent + 1) s.events = events at step
      have other : e.1 ≠ name := by
        rintro rfl
        exact new (List.mem_map_of_mem known)
      have ordered' : Ordered events := grown ▸ ordered_insertEntry _ _ ordered
      have known' : e ∈ events := grown ▸ mem_insertEntry_of_ne _ known other
      have small' : ∀ d ∈ events, d.2 < Numeral.limit64 :=
        grown ▸ forall_mem_insertEntry room small
      obtain ⟨t, name', id, u, other, leads, rest⟩ := ih (e.2 - (s.lastEvent + 1)) (by omega)
        (s := { s with lastEvent := s.lastEvent + 1, events := events })
        ordered' small' known' (by simp only; omega) rfl
      exact ⟨t, name', id, u, other, (Leads.eventId .here step).trans leads, rest⟩

structure Tabled (s : Store) : Prop where
  events : Ordered s.events
  eventIds : ∀ e ∈ s.events, e.2 < Numeral.limit64
  contracts : Ordered s.contracts
  contractIds : ∀ e ∈ s.contracts, e.1 < Numeral.limit64

end Store

namespace Snapshot

open Json (Tree)

theorem exists_of_mapM {α β : Type} {read : α → Option β} {xs : List α} {ys : List β}
    (all : xs.mapM read = some ys) : ∀ y ∈ ys, ∃ x, read x = some y := by
  induction xs generalizing ys with
  | nil =>
    obtain rfl : [] = ys := by simpa using all
    simp
  | cons x xs ih =>
    simp only [List.mapM_cons, Option.pure_def, Option.bind_eq_bind, Option.bind_eq_some_iff] at all
    obtain ⟨first, here, rest, others, parts⟩ := all
    obtain rfl := Option.some.inj parts
    exact List.forall_mem_cons.mpr ⟨⟨x, here⟩, ih others⟩

theorem number?_lt {t : Tree} {n : Nat} (read : number? t = some n) : n < Numeral.limit64 := by
  unfold number? Tree.natural? at read
  split at read
  · split at read
    · split at read
      · next fits =>
        obtain rfl := Option.some.inj read
        exact fits.2
      · contradiction
    · contradiction
  · contradiction

theorem numberName?_lt {content : List Text.Utf8.Piece} {n : Nat} (read : numberName? content = some n) :
    n < Numeral.limit64 := by
  unfold numberName? at read
  obtain ⟨found, -, read⟩ := Option.bind_eq_some_iff.mp read
  split at read
  · exact number?_lt read
  · contradiction

theorem events?_tabled {t : Tree} {events : List (String × Nat)} (read : events? t = some events) :
    Ordered events ∧ ∀ e ∈ events, e.2 < Numeral.limit64 := by
  unfold events? at read
  obtain ⟨entries, -, read⟩ := Option.bind_eq_some_iff.mp read
  obtain ⟨members, each, read⟩ := Option.bind_eq_some_iff.mp read
  obtain rfl := Option.some.inj read
  rw [Json.sortMembers_eq_foldl]
  refine ⟨ordered_foldl_insertEntry members, ?_⟩
  intro e member
  obtain ⟨entry, given⟩ := exists_of_mapM each e (mem_of_mem_foldl_insertEntry member)
  obtain ⟨name, -, given⟩ := Option.bind_eq_some_iff.mp given
  obtain ⟨id, number, given⟩ := Option.bind_eq_some_iff.mp given
  obtain rfl := Option.some.inj given
  exact number?_lt number

theorem contracts?_tabled {depth : Nat} {t : Tree} {contracts : List (Nat × Contract)}
    (read : contracts? depth t = some contracts) :
    Ordered contracts ∧ ∀ e ∈ contracts, e.1 < Numeral.limit64 := by
  unfold contracts? at read
  obtain ⟨entries, -, read⟩ := Option.bind_eq_some_iff.mp read
  obtain ⟨members, each, read⟩ := Option.bind_eq_some_iff.mp read
  obtain rfl := Option.some.inj read
  simp only [Store.place_eq_insertEntry]
  refine ⟨ordered_foldl_insertEntry members, ?_⟩
  intro e member
  obtain ⟨entry, given⟩ := exists_of_mapM each e (mem_of_mem_foldl_insertEntry member)
  obtain ⟨id, number, given⟩ := Option.bind_eq_some_iff.mp given
  obtain ⟨c, -, given⟩ := Option.bind_eq_some_iff.mp given
  obtain rfl := Option.some.inj given
  exact numberName?_lt number

theorem exists_of_required {α : Type} {read : Tree → Option α} {field : Option Tree} {a : α}
    (given : required read field = some a) : ∃ t, read t = some a := by
  cases field with
  | none => contradiction
  | some t => exact ⟨t, given⟩

theorem store?_tabled {t : Tree} {s : Store} (read : store? t = some s) : s.Tabled := by
  unfold store? at read
  obtain ⟨fields, -, read⟩ := Option.bind_eq_some_iff.mp read
  split at read
  · next lastContract lastEvent events contracts =>
    obtain ⟨m, -, read⟩ := Option.bind_eq_some_iff.mp read
    obtain ⟨n, -, read⟩ := Option.bind_eq_some_iff.mp read
    obtain ⟨named, eventsRead, read⟩ := Option.bind_eq_some_iff.mp read
    obtain ⟨placed, contractsRead, read⟩ := Option.bind_eq_some_iff.mp read
    obtain rfl := Option.some.inj read
    obtain ⟨_, eventsRead⟩ := exists_of_required eventsRead
    obtain ⟨_, contractsRead⟩ := exists_of_required contractsRead
    exact ⟨(events?_tabled eventsRead).1, (events?_tabled eventsRead).2,
      (contracts?_tabled contractsRead).1, (contracts?_tabled contractsRead).2⟩
  · contradiction

theorem ofFile_tabled {bytes : List UInt8} {s : Store} (loaded : ofFile (.ok bytes) = .ok s) : s.Tabled := by
  unfold ofFile at loaded
  split at loaded
  · contradiction
  · contradiction
  · split at loaded
    · next decoded =>
      obtain rfl := Except.ok.inj loaded
      obtain ⟨document, -, read⟩ := Option.bind_eq_some_iff.mp decoded
      exact store?_tabled read
    · contradiction

end Snapshot

namespace Store

/-- Numbers of contracts are not given twice, and nothing stored is replaced, exactly when none is above
the counter. The numbers of events are not given to other names exactly when none is above theirs. -/
structure NumberingLaw (s : Store) : Prop where
  contracts_iff : s.ContractsCounted ↔ ∀ t c id u, s.Leads t → t.insert c = .ok (id, u) →
    ∀ r, s.Leads r → r.Leads t → r.contract? id = none
  kept : s.ContractsCounted → ∀ r t, s.Leads r → r.Leads t → ∀ id c,
    r.contract? id = some c → t.contract? id = some c
  events_iff : s.EventsCounted ↔ ∀ t name id u, s.Leads t → t.events.lookup name = none →
    t.eventId name = .ok (id, u) → ∀ other, t.events.lookup other ≠ some id
  saved : ∀ r : Store, r.Reached → Snapshot.ofFile (.ok (Snapshot.toFile r)) = .ok s →
    s.ContractsCounted ∧ s.EventsCounted

theorem counted_of_saved {r s : Store} (reached : r.Reached)
    (loaded : Snapshot.ofFile (.ok (Snapshot.toFile r)) = .ok s) :
    s.ContractsCounted ∧ s.EventsCounted := by
  rw [ofFile_of_reached reached] at loaded
  split at loaded
  · obtain rfl := Except.ok.inj loaded
    have numbered := numbered_of_reached reached
    exact ⟨numbered.contractIds, numbered.eventIds⟩
  · contradiction

theorem loaded_numbers_fresh_iff (bytes : List UInt8) (s : Store)
    (loaded : Snapshot.ofFile (.ok bytes) = .ok s) : s.NumberingLaw where
  contracts_iff := by
    have tabled := Snapshot.ofFile_tabled loaded
    constructor
    · intro counted t c id u leads step r before onward
      obtain ⟨rfl, -, -⟩ := insert_cases step
      have behind := lastContract_le_of_leads onward
      exact contract?_eq_none (contractsCounted_of_leads counted before) (by omega)
    · intro fresh e stored
      by_contra above
      obtain ⟨t, c, id, u, leads, step, used⟩ :=
        overwritten tabled.contracts tabled.contractIds stored (by omega)
      exact used (fresh t c id u leads step t leads .here)
  kept counted r t before onward id c stored :=
    contract?_of_leads (contractsCounted_of_leads counted before) onward stored
  events_iff := by
    have tabled := Snapshot.ofFile_tabled loaded
    constructor
    · intro counted t name id u leads new step other taken
      have below := eventsCounted_of_leads counted leads _ (mem_of_lookup taken)
      have next := id_of_new new step
      simp only at below
      omega
    · intro fresh e known
      by_contra above
      obtain ⟨t, name, id, u, other, leads, new, step, taken⟩ :=
        reused tabled.events tabled.eventIds known (by omega)
      exact fresh t name id u leads new step other taken
  saved r reached loaded := counted_of_saved reached loaded

theorem token_numbers_fresh :
    Snapshot.ofFile (.ok (Snapshot.toFile tokenStore)) = .ok tokenStore ∧ tokenStore.NumberingLaw := by
  have loaded : Snapshot.ofFile (.ok (Snapshot.toFile tokenStore)) = .ok tokenStore := by
    rw [ofFile_of_reached tokenStore_reached, if_pos (by decide)]
  exact ⟨loaded, loaded_numbers_fresh_iff _ tokenStore loaded⟩

/-- A snapshot whose counter is behind its only contract. -/
def behindText : String :=
  "\x7b\"next_contract_id\":0,\"next_event_id\":0,\"events\":\x7b\x7d,\"contracts\":\x7b\"1\":" ++
  "\x7b\"address\":\"0x00000000000000000000000000000000000000a1\",\"name\":\"Token\",\"abi\":[]," ++
  "\"layout\":\x7b\"assignments\":[],\"slots_used\":0\x7d,\"event_ids\":[]\x7d\x7d\x7d"

def register (s : Store) : Nat × List (Nat × Address) :=
  (s.lastContract, s.contracts.map fun e => (e.1, e.2.address))

/-- It is loaded, and the first contract that is stored takes the place of the one in it. -/
theorem behind_overwritten :
    ¬ ∀ bytes s, Snapshot.ofFile (.ok bytes) = .ok s → ∀ t c id u, s.Leads t →
      t.insert c = .ok (id, u) → t.contract? id = none := by
  intro fresh
  have read : ((Snapshot.ofFile (.ok (Text.Utf8.encode behindText.toList))).toOption.map register) =
      some (0, [(1, 0xA1)]) := by decide +kernel
  cases loaded : Snapshot.ofFile (.ok (Text.Utf8.encode behindText.toList)) with
  | error e => rw [loaded] at read; contradiction
  | ok s =>
    rw [loaded] at read
    obtain ⟨counter, contracts⟩ := Prod.mk.inj (Option.some.inj read)
    obtain ⟨⟨id, c⟩, rest, entry⟩ : ∃ e, s.contracts = [e] ∧ (e.1, e.2.address) = (1, 0xA1) := by
      simpa [List.map_eq_singleton_iff] using contracts
    obtain ⟨rfl, address⟩ := Prod.mk.inj entry
    have new : ∀ e ∈ s.contracts, e.2.address ≠ 0xB2 := by
      simp only at address
      simp [rest, address]
    have room : s.lastContract + 1 < Numeral.limit64 := by
      rw [counter]
      decide
    have free := fresh _ s loaded s { c with address := 0xB2 } _ _ .here
      (insert_of_new (hasAddress_eq_false new) room)
    simp [contract?, rest, counter] at free

end Store

end ContractRegistry
