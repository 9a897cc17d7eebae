import ContractRegistry.Proofs.Metadata
import ContractRegistry.Proofs.Store.Snapshot

/-!
A saved store is loaded as it was, unless an interface in it nests too deep.

An interface is accepted when it nests within the limit of a document of its own. In a snapshot it
lies in a contract, among the contracts, in the store, so that three levels of the same limit are gone
before it begins.
-/
namespace ContractRegistry

open Json (Value)

/-- A contract as onboarding makes it: its interface was accepted with some document, and its numbers
fit their widths. Doubles are left out. -/
structure Contract.Onboarded (c : Contract) : Prop where
  accepted : ∃ address text m, Metadata.ofDocument address text = .ok m ∧ m.interface = c.interface
  whole : c.interface.Whole
  fits : c.Fits

theorem Contract.Onboarded.kept {c : Contract} (onboarded : c.Onboarded) :
    c.interface.Settled ∧ c.interface.nest ≤ Json.depthLimit := by
  obtain ⟨address, text, m, accepted, same⟩ := onboarded.accepted
  have kept := Metadata.kept_ofDocument accepted
  rw [same] at kept
  exact kept onboarded.whole

namespace Store

/-- The stores to which naming events and storing contracts lead from the empty one. -/
inductive Reached : Store → Prop where
  | empty : Reached .empty
  | eventId {s t : Store} {name : String} {id : Nat} (before : Reached s)
    (step : s.eventId name = .ok (id, t)) : Reached t
  | insert {s t : Store} {c : Contract} {id : Nat} (before : Reached s) (onboarded : c.Onboarded)
    (step : s.insert c = .ok (id, t)) : Reached t

theorem next_eq_ok {last id : Nat} (given : next last = .ok id) :
    id = last + 1 ∧ last + 1 < Numeral.limit64 := by
  unfold next at given
  split at given
  · next fits => exact ⟨(Except.ok.inj given).symm, fits⟩
  · contradiction

theorem next_of_room {last : Nat} (room : last + 1 < Numeral.limit64) : next last = .ok (last + 1) :=
  if_pos room

theorem next_of_full {last : Nat} (full : Numeral.limit64 ≤ last + 1) : next last = .error (.panic .addition) :=
  if_neg (Nat.not_lt.mpr full)

theorem eventId_of_new {s : Store} {name : String} (new : s.events.lookup name = none)
    (room : s.lastEvent + 1 < Numeral.limit64) :
    s.eventId name = .ok (s.lastEvent + 1, { s with
      lastEvent := s.lastEvent + 1, events := insertEntry name (s.lastEvent + 1) s.events }) := by
  unfold eventId
  rw [new, next_of_room room, ← Json.insertMember_eq_insertEntry]
  rfl

theorem eventId_of_full {s : Store} {name : String} (new : s.events.lookup name = none)
    (full : Numeral.limit64 ≤ s.lastEvent + 1) : s.eventId name = .error (.panic .addition) := by
  unfold eventId
  rw [new, next_of_full full]
  rfl

theorem insert_of_new {s : Store} {c : Contract} (new : s.hasAddress c.address = false)
    (room : s.lastContract + 1 < Numeral.limit64) :
    s.insert c = .ok (s.lastContract + 1, { s with
      lastContract := s.lastContract + 1, contracts := insertEntry (s.lastContract + 1) c s.contracts }) := by
  unfold insert
  rw [new, next_of_room room, ← place_eq_insertEntry]
  rfl

theorem hasAddress_eq_false {s : Store} {address : Address}
    (new : ∀ e ∈ s.contracts, e.2.address ≠ address) : s.hasAddress address = false := by
  simpa [hasAddress] using new

/-- Naming an event changes nothing when its name is known, and adds it under the next number when it
is not. -/
theorem eventId_cases {s t : Store} {name : String} {id : Nat} (step : s.eventId name = .ok (id, t)) :
    t = s ∨ id = s.lastEvent + 1 ∧ id < Numeral.limit64 ∧
      t = { s with lastEvent := id, events := Json.insertMember name id s.events } := by
  unfold eventId at step
  split at step
  · exact .inl (congrArg Prod.snd (Except.ok.inj step)).symm
  · obtain ⟨new, given, step⟩ := bind_eq_ok.mp step
    obtain ⟨same, fits⟩ := next_eq_ok given
    have result := Except.ok.inj step
    obtain rfl : new = id := congrArg Prod.fst result
    exact .inr ⟨same, same ▸ fits, (congrArg Prod.snd result).symm⟩

theorem insert_cases {s t : Store} {c : Contract} {id : Nat} (step : s.insert c = .ok (id, t)) :
    id = s.lastContract + 1 ∧ id < Numeral.limit64 ∧
      t = { s with lastContract := id, contracts := place id c s.contracts } := by
  unfold insert at step
  split at step
  · contradiction
  · obtain ⟨new, given, step⟩ := bind_eq_ok.mp step
    obtain ⟨same, fits⟩ := next_eq_ok given
    have result := Except.ok.inj step
    obtain rfl : new = id := congrArg Prod.fst result
    exact ⟨same, same ▸ fits, (congrArg Prod.snd result).symm⟩

theorem numbered_empty : Numbered .empty :=
  ⟨by decide, by decide, .nil, by simp [empty], .nil, by simp [empty]⟩

theorem numbered_eventId {s t : Store} {name : String} {id : Nat} (numbered : s.Numbered)
    (step : s.eventId name = .ok (id, t)) : t.Numbered := by
  rcases eventId_cases step with rfl | ⟨same, fits, rfl⟩
  · exact numbered
  refine { numbered with lastEvent := fits, events := ?_, eventIds := ?_ }
  · simp only [Json.insertMember_eq_insertEntry]
    exact ordered_insertEntry name id numbered.events
  · intro e member
    simp only [Json.insertMember_eq_insertEntry] at member ⊢
    rcases mem_of_mem_insertEntry member with rfl | earlier
    · exact Nat.le_refl id
    · have below := numbered.eventIds e earlier
      omega

theorem numbered_insert {s t : Store} {c : Contract} {id : Nat} (numbered : s.Numbered)
    (step : s.insert c = .ok (id, t)) : t.Numbered := by
  obtain ⟨same, fits, rfl⟩ := insert_cases step
  refine { numbered with lastContract := fits, contracts := ?_, contractIds := ?_ }
  · simp only [place_eq_insertEntry]
    exact ordered_insertEntry id c numbered.contracts
  · intro e member
    simp only [place_eq_insertEntry] at member ⊢
    rcases mem_of_mem_insertEntry member with rfl | earlier
    · exact Nat.le_refl id
    · have below := numbered.contractIds e earlier
      omega

theorem numbered_of_reached {s : Store} (reached : s.Reached) : s.Numbered := by
  induction reached with
  | empty => exact numbered_empty
  | eventId _ step ih => exact numbered_eventId ih step
  | insert _ _ step ih => exact numbered_insert ih step

theorem onboarded_of_reached {s : Store} (reached : s.Reached) :
    ∀ e ∈ s.contracts, e.2.Onboarded := by
  induction reached with
  | empty => simp [empty]
  | eventId _ step ih =>
    rcases eventId_cases step with rfl | ⟨-, -, rfl⟩
    · exact ih
    · exact ih
  | insert _ onboarded step ih =>
    obtain ⟨-, -, rfl⟩ := insert_cases step
    intro e member
    rw [place_eq_insertEntry] at member
    rcases mem_of_mem_insertEntry member with rfl | earlier
    · exact onboarded
    · exact ih e earlier

theorem ofFile_of_reached {s : Store} (reached : s.Reached) :
    Snapshot.ofFile (.ok (Snapshot.toFile s)) =
      if ∀ e ∈ s.contracts, e.2.interface.nest ≤ Snapshot.room then .ok s
      else .error (.snapshot Json.refusal) :=
  Snapshot.ofFile_toFile s (numbered_of_reached reached)
    (fun e member => (onboarded_of_reached reached e member).kept.1)
    (fun e member => (onboarded_of_reached reached e member).fits)

/-- What saving a store and loading it again comes to. -/
structure ReloadLaw (s : Store) : Prop where
  accepted : ∀ e ∈ s.contracts, e.2.interface.nest ≤ Json.depthLimit
  kept : (∀ e ∈ s.contracts, e.2.interface.nest ≤ Snapshot.room) →
    Snapshot.ofFile (.ok (Snapshot.toFile s)) = .ok s
  lost : ∀ e ∈ s.contracts, Snapshot.room < e.2.interface.nest →
    Snapshot.ofFile (.ok (Snapshot.toFile s)) = .error (.snapshot Json.refusal)

/-- A store is loaded as it was saved exactly when every interface in it leaves three levels of the
limit unused. One deeper interface is enough to lose the whole store. -/
theorem reload_of_reached (s : Store) (reached : s.Reached) : s.ReloadLaw where
  accepted e member := (onboarded_of_reached reached e member).kept.2
  kept shallow := by rw [ofFile_of_reached reached, if_pos shallow]
  lost e member deep := by
    have fails : ¬ ∀ e ∈ s.contracts, e.2.interface.nest ≤ Snapshot.room := by
      intro shallow
      have within := shallow e member
      omega
    rw [ofFile_of_reached reached, if_neg fails]

def transferInterface : Value :=
  .array [.object [("name", .string "Transfer"), ("type", .string "event")]]

theorem transferInterface_settled : transferInterface.Settled := by
  refine .array _ ?_
  simp only [List.forall_mem_cons]
  refine ⟨.object _ ?_ ?_, by simp⟩
  · simp only [List.forall_mem_cons]
    exact ⟨.string _, .string _, by simp⟩
  · exact List.pairwise_pair.mpr (by decide)

def token : Contract :=
  ⟨0xA1, "Token", transferInterface, ⟨[⟨"total", 0, 0, 32, "uint256", .value⟩], 1⟩, [1]⟩

theorem token_onboarded : token.Onboarded where
  accepted := (Metadata.accepted_iff transferInterface_settled).mpr (by decide)
  whole := transferInterface_settled.whole
  fits := by
    refine ⟨⟨?_, by decide⟩, by decide⟩
    intro a member
    obtain rfl := List.mem_singleton.mp member
    exact ⟨by decide, by decide, by decide⟩

def tokenStore : Store :=
  ⟨1, 1, [("Transfer", 1)], [(1, token)]⟩

theorem tokenStore_reached : tokenStore.Reached := by
  have named : empty.eventId "Transfer" = .ok (1, ⟨0, 1, [("Transfer", 1)], []⟩) := rfl
  have stored : insert ⟨0, 1, [("Transfer", 1)], []⟩ token = .ok (1, tokenStore) := rfl
  exact .insert (.eventId .empty named) token_onboarded stored

theorem token_reloaded :
    tokenStore.Reached ∧ tokenStore.ReloadLaw ∧
      Snapshot.ofFile (.ok (Snapshot.toFile tokenStore)) = .ok tokenStore := by
  have law := reload_of_reached tokenStore tokenStore_reached
  exact ⟨tokenStore_reached, law, law.kept (by decide)⟩

def arrays : Nat → Value
  | 0 => .array []
  | n + 1 => .array [arrays n]

theorem arrays_settled (n : Nat) : (arrays n).Settled := by
  induction n with
  | zero => exact .array [] (by simp)
  | succ n ih => exact .array [arrays n] (by simpa using ih)

theorem nest_arrays (n : Nat) : (arrays n).nest = n + 1 := by
  induction n with
  | zero => rfl
  | succ n ih => simp [arrays, Value.nest, Value.nestItems, ih]

/-- A contract without variables whose interface is arrays in arrays. -/
def deepContract (n : Nat) : Contract :=
  ⟨0xA2, "Deep", arrays n, ⟨[], 0⟩, []⟩

theorem deepContract_onboarded (n : Nat) (small : n < Json.depthLimit) :
    (deepContract n).Onboarded where
  accepted := by
    obtain ⟨entries, same⟩ : ∃ entries, arrays n = .array entries := by
      cases n <;> exact ⟨_, rfl⟩
    have settled := arrays_settled n
    have nested := nest_arrays n
    rw [deepContract, same]
    rw [same] at settled nested
    exact (Metadata.accepted_iff settled).mpr (by omega)
  whole := (arrays_settled n).whole
  fits := ⟨⟨by simp [deepContract], Nat.two_pow_pos 64⟩, by simp [deepContract]⟩

def deepStore (n : Nat) : Store :=
  ⟨1, 0, [], [(1, deepContract n)]⟩

theorem deepStore_reached (n : Nat) (small : n < Json.depthLimit) : (deepStore n).Reached := by
  have stored : empty.insert (deepContract n) = .ok (1, deepStore n) := rfl
  exact .insert .empty (deepContract_onboarded n small) stored

/-- Arrays 125 deep are accepted and saved, and the snapshot is refused. -/
theorem deep_store_lost :
    ¬ ∀ s : Store, s.Reached → Snapshot.ofFile (.ok (Snapshot.toFile s)) = .ok s := by
  intro reload
  have reached := deepStore_reached 124 (by decide)
  have loaded := reload (deepStore 124) reached
  have deep : ¬ ∀ e ∈ (deepStore 124).contracts, e.2.interface.nest ≤ Snapshot.room := by
    simp [deepStore, deepContract, nest_arrays, Snapshot.room, Json.depthLimit]
  rw [ofFile_of_reached reached, if_neg deep] at loaded
  contradiction

end Store

end ContractRegistry
