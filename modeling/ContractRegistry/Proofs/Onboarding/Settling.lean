import ContractRegistry.Command
import ContractRegistry.Proofs.Store.Reload

/-!
What onboarding does to a store, wherever metadata comes from.

An accepted address has its contract inserted behind some naming of events. A rejected one has named
events at most, and not even that before the last stage. A panic on the way of an address leaves it and
all behind it without an outcome.
-/
namespace ContractRegistry

open Onboarding
open Command (storeServices onStore)

def Outcome.address : Outcome → String
  | .accepted address _ _ => address
  | .rejected address _ => address

section
variable {σ α : Type}

theorem onStore_ok (use : Store → StoreResult (α × Store)) {s t : Store} {a : α}
    (step : use s = .ok (a, t)) (w : σ) :
    (onStore use : StateT Store (StateM σ) _) s w = ((.ok a, t), w) := by
  unfold onStore
  rw [step]
  rfl

theorem onStore_error (use : Store → StoreResult (α × Store)) {s : Store} {e : Failure StoreError}
    (step : use s = .error e) (w : σ) :
    (onStore use : StateT Store (StateM σ) _) s w = ((.error e, s), w) := by
  unfold onStore
  rw [step]
  rfl

end

namespace Store

/-- Names the events of metadata and stores the contract with their numbers. -/
def keep (s : Store) (address : Address) (metadata : Metadata) (name : String) (layout : Layout) :
    StoreResult (Nat × Store) := do
  let (events, t) ← s.eventIds (Event.names metadata.interface)
  t.insert ⟨address, name, metadata.interface, layout, events⟩

def offer (s : Store) (address : Address) (metadata : Metadata) :
    Except (Failure Rejection) ((Nat × String) × Store) := do
  let (contract, layout) ← resolve metadata
  let name := displayName metadata contract
  let (id, t) ← orReject .store (s.keep address metadata name layout)
  .ok ((id, name), t)

def SameContracts (s t : Store) : Prop :=
  t.lastContract = s.lastContract ∧ t.contracts = s.contracts

inductive Settles (s : Store) (text : String) : Outcome → Store → Prop where
  | accepted {t u : Store} {c : Contract} {id : Nat} (parsed : Address.parse? text = some c.address)
    (named : SameContracts s t) (stored : t.insert c = .ok (id, u)) :
    Settles s text (.accepted text id c.name) u
  | rejected {t : Store} {reason : Rejection} (named : SameContracts s t)
    (early : reason.stage ≠ .persisting → t = s) : Settles s text (.rejected text reason) t

inductive SettlesAll : Store → List String → List Outcome → Store → Prop where
  | nil (s : Store) : SettlesAll s [] [] s
  | cons {s t u : Store} {text : String} {texts : List String} {o : Outcome} {os : List Outcome}
    (first : Settles s text o t) (others : SettlesAll t texts os u) :
    SettlesAll s (text :: texts) (o :: os) u

theorem settlesAll_addresses {s t : Store} {texts : List String} {os : List Outcome}
    (settled : SettlesAll s texts os t) : os.map Outcome.address = texts := by
  induction settled with
  | nil s => rfl
  | cons first others ih =>
    refine List.cons_eq_cons.mpr ⟨?_, ih⟩
    cases first <;> rfl

theorem SameContracts.refl (s : Store) : SameContracts s s :=
  ⟨rfl, rfl⟩

theorem SameContracts.trans {s t u : Store} (first : SameContracts s t) (second : SameContracts t u) :
    SameContracts s u :=
  ⟨second.1.trans first.1, second.2.trans first.2⟩

theorem sameContracts_eventId {s t : Store} {name : String} {id : Nat}
    (step : s.eventId name = .ok (id, t)) : SameContracts s t := by
  rcases eventId_cases step with rfl | ⟨-, -, rfl⟩
  · exact .refl t
  · exact ⟨rfl, rfl⟩

theorem sameContracts_eventIds {s t : Store} {names : List String} {ids : List Nat}
    (named : s.eventIds names = .ok (ids, t)) : SameContracts s t := by
  induction names generalizing s ids with
  | nil =>
    cases named
    exact .refl t
  | cons name names ih =>
    obtain ⟨⟨id, u⟩, first, named⟩ := bind_eq_ok.mp named
    obtain ⟨⟨others, v⟩, rest, same⟩ := bind_eq_ok.mp named
    cases same
    exact (sameContracts_eventId first).trans (ih rest)

theorem offer_eq_ok {s u : Store} {address : Address} {metadata : Metadata} {id : Nat} {name : String}
    (offered : s.offer address metadata = .ok ((id, name), u)) :
    ∃ (c : Contract) (t : Store), c.address = address ∧ c.name = name ∧ SameContracts s t ∧
      t.insert c = .ok (id, u) := by
  obtain ⟨⟨contract, layout⟩, -, offered⟩ := bind_eq_ok.mp offered
  obtain ⟨⟨id', u'⟩, kept, same⟩ := bind_eq_ok.mp offered
  cases same
  unfold orReject at kept
  split at kept
  · rename_i given stored
    cases kept
    obtain ⟨⟨events, t⟩, named, stored⟩ := bind_eq_ok.mp stored
    exact ⟨_, t, rfl, rfl, sameContracts_eventIds named, stored⟩
  · contradiction

end Store

section
variable {σ : Type} (fetch : Address → StateM σ (Except FetchError Metadata))

open Store (SameContracts Settles SettlesAll)

theorem eventIds_run (names : List String) (s : Store) (w : σ) :
    ∃ result t, eventIds (storeServices fetch) names s w = ((result, t), w) ∧ SameContracts s t ∧
      s.eventIds names = result.map fun ids => (ids, t) := by
  induction names generalizing s with
  | nil => exact ⟨_, s, rfl, .refl s, rfl⟩
  | cons name names ih =>
    unfold Store.eventIds
    cases step : s.eventId name with
    | error e =>
      have refused := onStore_error (fun s => s.eventId name) step w
      exact ⟨_, s, bind_run refused, .refl s, rfl⟩
    | ok given =>
      obtain ⟨id, t⟩ := given
      have first := onStore_ok (fun s => s.eventId name) step w
      obtain ⟨result, u, others, same, together⟩ := ih t
      have named := (Store.sameContracts_eventId step).trans same
      cases result with
      | error e =>
        exact ⟨_, u, (bind_run first).trans (bind_run others), named,
          (bind_of_eq_ok rfl).trans (bind_of_eq_error together)⟩
      | ok ids =>
        exact ⟨_, u, (bind_run first).trans (bind_run others), named,
          (bind_of_eq_ok rfl).trans (bind_of_eq_ok together)⟩

theorem persist_run (address : Address) (metadata : Metadata) (name : String) (layout : Layout)
    (s : Store) (w : σ) :
    ∃ result u, persist (storeServices fetch) address metadata name layout s w = ((result, u), w) ∧
      s.keep address metadata name layout = (result.map fun id => (id, u)) ∧
      ∀ e, result = .error e → SameContracts s u := by
  obtain ⟨result, t, named, same, together⟩ := eventIds_run fetch (Event.names metadata.interface) s w
  cases result with
  | error e => exact ⟨_, t, bind_run named, bind_of_eq_error together, fun _ _ => same⟩
  | ok events =>
    let c : Contract := ⟨address, name, metadata.interface, layout, events⟩
    cases stored : t.insert c with
    | error e =>
      have refused := onStore_error (fun s => s.insert c) stored w
      exact ⟨_, t, (bind_run named).trans refused, (bind_of_eq_ok together).trans stored,
        fun _ _ => same⟩
    | ok given =>
      obtain ⟨id, u⟩ := given
      have kept := onStore_ok (fun s => s.insert c) stored w
      exact ⟨_, u, (bind_run named).trans kept, (bind_of_eq_ok together).trans stored,
        fun _ failed => by contradiction⟩

/-- Accepting is offering, but for the store behind a failure. -/
theorem accept_run (address : Address) (metadata : Metadata) (s : Store) (w : σ) :
    ∃ result u, accept (storeServices fetch) address metadata s w = ((result, u), w) ∧
      s.offer address metadata = (result.map fun kept => (kept, u)) ∧
      ∀ reason, result = .error (.told reason) →
        SameContracts s u ∧ (reason.stage ≠ .persisting → u = s) := by
  unfold accept Store.offer
  cases resolve metadata with
  | error e => exact ⟨_, s, rfl, rfl, fun _ _ => ⟨.refl s, fun _ => rfl⟩⟩
  | ok found =>
    obtain ⟨contract, layout⟩ := found
    obtain ⟨result, u, run, together, same⟩ :=
      persist_run fetch address metadata (displayName metadata contract) layout s w
    cases result with
    | error e =>
      refine ⟨_, u, bind_run run, ?_, ?_⟩
      · exact (bind_of_eq_ok rfl).trans (bind_of_eq_error (congrArg (orReject .store) together))
      · intro reason told
        refine ⟨same e rfl, fun early => ?_⟩
        cases e with
        | told cause =>
          cases told
          exact absurd rfl early
        | panic p => cases told
    | ok id =>
      refine ⟨_, u, bind_run run, ?_, fun _ failed => by contradiction⟩
      exact (bind_of_eq_ok rfl).trans (bind_of_eq_ok (congrArg (orReject .store) together))

def asked (text : String) (w : σ) : σ :=
  match Address.parse? text with
  | none => w
  | some address => (fetch address w).2

/-- A text for which there is metadata that a panic ends. -/
def Panics (s : Store) (w : σ) (text : String) (p : Panic) : Prop :=
  ∃ address metadata, Address.parse? text = some address ∧ (fetch address w).1 = .ok metadata ∧
    s.offer address metadata = .error (.panic p)

theorem process_run (text : String) (s : Store) (w : σ) :
    ∃ result u, process (storeServices fetch) text s w = ((result, u), asked fetch text w) ∧
      (∀ id name, result = .ok (id, name) → Settles s text (.accepted text id name) u) ∧
      (∀ reason, result = .error (.told reason) → Settles s text (.rejected text reason) u) ∧
      ∀ p, result = .error (.panic p) ↔ Panics fetch s w text p := by
  unfold process asked Panics
  cases parsed : Address.parse? text with
  | none =>
    refine ⟨_, s, rfl, by simp, ?_, by simp⟩
    intro reason told
    cases told
    exact .rejected (.refl s) fun _ => rfl
  | some address =>
    have answered : (storeServices fetch).fetch address s w =
        (((fetch address w).1, s), (fetch address w).2) := rfl
    cases answer : (fetch address w).1 with
    | error e =>
      rw [answer] at answered
      refine ⟨_, s, bind_run answered, by simp, ?_, by simp [answer]⟩
      intro reason told
      cases told
      exact .rejected (.refl s) fun _ => rfl
    | ok metadata =>
      rw [answer] at answered
      obtain ⟨result, u, run, together, same⟩ :=
        accept_run fetch address metadata s (fetch address w).2
      refine ⟨result, u, (bind_run answered).trans run, ?_, ?_, ?_⟩
      · rintro id name rfl
        obtain ⟨c, t, located, rfl, named, stored⟩ := Store.offer_eq_ok together
        exact .accepted (located ▸ parsed) named stored
      · intro reason told
        exact .rejected (same reason told).1 (same reason told).2
      · intro p
        simp only [Option.some.injEq, exists_and_left, exists_eq_left', answer, Except.ok.injEq, together]
        cases result <;> simp [Except.map]

theorem onboard_run (text : String) (s : Store) (w : σ) :
    ∃ result t, onboard (storeServices fetch) text s w = ((result, t), asked fetch text w) ∧
      (∀ o, result = .ok o → Settles s text o t) ∧
      ∀ p, result = .error p ↔ Panics fetch s w text p := by
  obtain ⟨result, t, run, accepted, rejected, panics⟩ := process_run fetch text s w
  simp only [← panics]
  cases result with
  | ok kept =>
    refine ⟨.ok (.accepted text kept.1 kept.2), t, bind_done (lift_run run), ?_, by simp⟩
    rintro o ⟨⟩
    exact accepted kept.1 kept.2 rfl
  | error e =>
    cases e with
    | told reason =>
      refine ⟨.ok (.rejected text reason), t, bind_done (lift_run run), ?_, by simp⟩
      rintro o ⟨⟩
      exact rejected reason rfl
    | panic p => exact ⟨.error p, t, bind_done (lift_run run), by simp, by simp⟩

/-- One of the texts panics behind others that have outcomes, and nothing is asked after it. -/
inductive PanicsAmong : Store → σ → List String → Panic → σ → Prop where
  | here {s : Store} {w : σ} {text : String} {texts : List String} {p : Panic}
    (panics : Panics fetch s w text p) : PanicsAmong s w (text :: texts) p (asked fetch text w)
  | later {s t : Store} {w v u : σ} {text : String} {texts : List String} {o : Outcome} {p : Panic}
    (first : onboard (storeServices fetch) text s w = ((.ok o, t), v))
    (others : PanicsAmong t v texts p u) : PanicsAmong s w (text :: texts) p u

def MayPanic (text : String) (p : Panic) : Prop :=
  ∃ s w, Panics fetch s w text p

theorem PanicsAmong.mayPanic {s : Store} {w v : σ} {texts : List String} {p : Panic}
    (panics : PanicsAmong fetch s w texts p v) : ∃ text ∈ texts, MayPanic fetch text p := by
  induction panics with
  | here panics => exact ⟨_, List.mem_cons_self, _, _, panics⟩
  | later first others ih =>
    obtain ⟨text, member, panics⟩ := ih
    exact ⟨text, List.mem_cons_of_mem _ member, panics⟩

theorem outcomes_panic {s : Store} {w v : σ} {texts : List String} {p : Panic}
    (panics : PanicsAmong fetch s w texts p v) :
    ∃ t, outcomes (storeServices fetch) texts s w = ((.error p, t), v) := by
  induction panics with
  | @here s w text texts p panics =>
    obtain ⟨result, t, run, -, stopped⟩ := onboard_run fetch text s w
    obtain rfl := (stopped p).mpr panics
    exact ⟨t, bind_stopped run⟩
  | later first others ih =>
    obtain ⟨u, rest⟩ := ih
    exact ⟨u, (bind_done first).trans (bind_stopped rest)⟩

/-- Onboarding texts one after the other settles each on the store that the earlier ones left, unless
one of them panics. -/
theorem outcomes_run (texts : List String) (s : Store) (w : σ) :
    (∃ os t, outcomes (storeServices fetch) texts s w =
      ((.ok os, t), texts.foldl (fun w text => asked fetch text w) w) ∧ SettlesAll s texts os t) ∨
    ∃ p t v, outcomes (storeServices fetch) texts s w = ((.error p, t), v) ∧
      PanicsAmong fetch s w texts p v := by
  induction texts generalizing s w with
  | nil => exact .inl ⟨[], s, rfl, .nil s⟩
  | cons text texts ih =>
    obtain ⟨result, t, first, settles, panics⟩ := onboard_run fetch text s w
    cases result with
    | error p => exact .inr ⟨p, t, _, bind_stopped first, .here ((panics p).mp rfl)⟩
    | ok o =>
      rcases ih t (asked fetch text w) with ⟨os, u, others, settled⟩ | ⟨p, u, v, others, panicked⟩
      · exact .inl ⟨o :: os, u, (bind_done first).trans (bind_done others),
          .cons (settles o rfl) settled⟩
      · exact .inr ⟨p, u, v, (bind_done first).trans (bind_stopped others), .later first panicked⟩

end

end ContractRegistry
