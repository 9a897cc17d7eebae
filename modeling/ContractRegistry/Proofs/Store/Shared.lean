import ContractRegistry.Proofs.Store.Registry

/-!
A store that many clients share.

A client asks for one service at a time, and between two of them others may be served. Naming the events
of an interface takes one service for each of them. The turns of the clients come in any order. At every
moment the store is the one of a registry, and what a client was told then is true of the registry for
good, because it only grows.
-/
namespace ContractRegistry

inductive Client (α : Type) where
  | done (result : α)
  | eventId (name : String) (next : StoreResult Nat → Client α)
  | insert (c : Contract) (next : StoreResult Nat → Client α)
  | contract (id : Nat) (next : Option Contract → Client α)

inductive Call where
  | eventId (name : String)
  | insert (c : Contract)
  | contract (id : Nat)
  /-- The numbers of the events of an interface. -/
  | build (interface : Json.Value)

inductive Answer where
  | id (given : StoreResult Nat)
  | contract (found : Option Contract)
  | ids (given : StoreResult (List Nat))

namespace Client
variable {α β σ : Type}

def bind : Client α → (α → Client β) → Client β
  | .done a, f => f a
  | .eventId name next, f => .eventId name fun given => (next given).bind f
  | .insert c next, f => .insert c fun given => (next given).bind f
  | .contract id next, f => .contract id fun found => (next found).bind f

instance : Monad Client where
  pure := .done
  bind := bind

/-- Events and contracts go to the server. Clients of a store have no metadata. -/
def services : Services Client where
  fetch address := pure (.error (.notFound address))
  eventId name := .eventId name .done
  insert c := .insert c .done

def step (server : Server σ) : Client α → StateM σ (Client α)
  | .done a => fun s => (.done a, s)
  | .eventId name next => fun s => (next (server.eventId name s).1, (server.eventId name s).2)
  | .insert c next => fun s => (next (server.insert c s).1, (server.insert c s).2)
  | .contract id next => fun s => (next (server.contract id s).1, (server.contract id s).2)

end Client

namespace Call

def client : Call → Client Answer
  | .eventId name => .eventId name fun given => .done (.id given)
  | .insert c => .insert c fun given => .done (.id given)
  | .contract id => .contract id fun found => .done (.contract found)
  | .build interface => do
    let given ← Onboarding.eventIds Client.services (Event.names interface)
    pure (.ids given)

end Call

/-- What happens next: some client calls, or the call of a number is served. -/
inductive Turn where
  | call (c : Call)
  | serve (n : Nat)

/-- What clients share, and all calls so far with what is left to do for each. -/
structure Pool (σ : Type) where
  state : σ
  calls : List (Call × Client Answer)

namespace Pool
variable {σ : Type}

def serve (server : Server σ) (p : Pool σ) (n : Nat) : Pool σ :=
  match p.calls[n]? with
  | none => p
  | some e =>
    ⟨(e.2.step server p.state).2, p.calls.set n (e.1, (e.2.step server p.state).1)⟩

def turn (server : Server σ) (p : Pool σ) : Turn → Pool σ
  | .call c => ⟨p.state, p.calls ++ [(c, c.client)]⟩
  | .serve n => p.serve server n

def run (server : Server σ) (p : Pool σ) (turns : List Turn) : Pool σ :=
  turns.foldl (turn server) p

end Pool

namespace Pool
variable {σ : Type} {server : Server σ} {p : Pool σ} {n : Nat}

theorem serve_none (unknown : p.calls[n]? = none) : p.serve server n = p := by
  unfold serve
  rw [unknown]

theorem serve_some {e : Call × Client Answer} (asked : p.calls[n]? = some e) :
    p.serve server n =
      ⟨(e.2.step server p.state).2, p.calls.set n (e.1, (e.2.step server p.state).1)⟩ := by
  unfold serve
  rw [asked]

end Pool

def Store.shared (turns : List Turn) : Pool Store :=
  Pool.run Store.server ⟨.empty, []⟩ turns

def Registry.shared (turns : List Turn) : Pool Registry :=
  Pool.run Registry.server ⟨.empty, []⟩ turns

def Pool.stored (p : Pool Registry) : Pool Store :=
  ⟨p.state.store, p.calls⟩

namespace Registry

/-- Names have numbers, one each in order, and equal ones just if they are equal. -/
structure NumbersOf (r : Registry) (names : List String) (ids : List Nat) : Prop where
  numbers : List.Forall₂ r.NumberOf names ids
  same_iff : ∀ i j, i < names.length → j < names.length → (ids[i]? = ids[j]? ↔ names[i]? = names[j]?)

def Answers (r : Registry) : Call → Answer → Prop
  | .eventId name, .id (.ok id) => r.NumberOf name id
  | .eventId _, .id (.error e) => e = .panic .addition ∧ Numeral.limit64 ≤ r.names.length + 1
  | .insert c, .id (.ok id) => r.contract? id = some c
  | .insert c, .id (.error e) =>
    (e = .told (.duplicateContract c.address) ∧ r.Lists c.address) ∨
      (e = .panic .addition ∧ Numeral.limit64 ≤ r.contracts.length + 1)
  | .contract id, .contract (some c) => r.contract? id = some c
  | .contract _, .contract none => True
  | .build interface, .ids (.ok ids) => r.NumbersOf (Event.names interface) ids
  | .build _, .ids (.error e) => e = .panic .addition ∧ Numeral.limit64 ≤ r.names.length + 1
  | _, _ => False

/-- The answer to a call that changes nothing from then on. -/
def Settled (r : Registry) : Call → Answer → Prop
  | .eventId name, .id (.ok id) => r.NumberOf name id
  | .insert c, .id (.error e) => e = .told (.duplicateContract c.address) ∧ r.Lists c.address
  | .contract id, .contract (some c) => r.contract? id = some c
  | .build interface, .ids (.ok ids) => List.Forall₂ r.NumberOf (Event.names interface) ids
  | _, _ => False

variable {r q : Registry}

theorem numbersOf_of_forall₂ {names : List String} {ids : List Nat}
    (numbers : List.Forall₂ r.NumberOf names ids) : r.NumbersOf names ids := by
  refine ⟨numbers, ?_⟩
  intro i j first second
  obtain ⟨lengths, each⟩ := List.forall₂_iff_get.mp numbers
  have here := each i first (lengths ▸ first)
  have there := each j second (lengths ▸ second)
  rw [List.getElem?_eq_getElem first, List.getElem?_eq_getElem second,
    List.getElem?_eq_getElem (lengths ▸ first), List.getElem?_eq_getElem (lengths ▸ second),
    Option.some_inj, Option.some_inj]
  exact here.eq_iff there

theorem NumbersOf.within {names : List String} {ids : List Nat} (numbers : r.NumbersOf names ids)
    (grown : r.Within q) : q.NumbersOf names ids :=
  ⟨numbers.numbers.imp fun _ _ number => number.within grown, numbers.same_iff⟩

theorem full_of_prefix {α : Type} {xs ys : List α} (begun : xs <+: ys)
    (full : Numeral.limit64 ≤ xs.length + 1) : Numeral.limit64 ≤ ys.length + 1 := by
  have longer := begun.length_le
  omega

theorem Answers.within {c : Call} {a : Answer} (fits : r.Answers c a) (grown : r.Within q) :
    q.Answers c a := by
  cases c with
  | eventId name =>
    match a, fits with
    | .id (.ok id), number => exact NumberOf.within number grown
    | .id (.error e), ⟨same, full⟩ => exact ⟨same, full_of_prefix grown.names full⟩
  | insert c =>
    match a, fits with
    | .id (.ok id), there => exact grown.contract?_eq there
    | .id (.error e), .inl ⟨same, listed⟩ => exact .inl ⟨same, grown.lists listed⟩
    | .id (.error e), .inr ⟨same, full⟩ => exact .inr ⟨same, full_of_prefix grown.contracts full⟩
  | contract id =>
    match a, fits with
    | .contract (some c), there => exact grown.contract?_eq there
    | .contract none, _ => trivial
  | build interface =>
    match a, fits with
    | .ids (.ok ids), numbers => exact NumbersOf.within numbers grown
    | .ids (.error e), ⟨same, full⟩ => exact ⟨same, full_of_prefix grown.names full⟩

end Registry

namespace Client
variable {α β : Type} {r q : Registry}

/-- Whatever others ask for in between, the client ends with a result that holds of the registry then. -/
def Meets (holds : Registry → α → Prop) : Client α → Registry → Prop
  | .done a, r => holds r a
  | .eventId name next, r =>
    ∀ q, r.Within q → (next (q.eventId name).1).Meets holds (q.eventId name).2
  | .insert c next, r => ∀ q, r.Within q → (next (q.insert c).1).Meets holds (q.insert c).2
  | .contract id next, r => ∀ q, r.Within q → (next (q.contract? id)).Meets holds q

theorem Meets.within {holds : Registry → α → Prop}
    (lasting : ∀ r q a, r.Within q → holds r a → holds q a) {client : Client α}
    (meets : client.Meets holds r) (grown : r.Within q) : client.Meets holds q := by
  cases client with
  | done a => exact lasting r q a grown meets
  | eventId name next => exact fun p more => meets p (grown.trans more)
  | insert c next => exact fun p more => meets p (grown.trans more)
  | contract id next => exact fun p more => meets p (grown.trans more)

theorem Meets.step {holds : Registry → α → Prop} {client : Client α} (meets : client.Meets holds r) :
    (client.step Registry.server r).1.Meets holds (client.step Registry.server r).2 := by
  cases client with
  | done a => exact meets
  | eventId name next => exact meets r (.refl r)
  | insert c next => exact meets r (.refl r)
  | contract id next => exact meets r (.refl r)

theorem within_step (client : Client α) (r : Registry) :
    r.Within (client.step Registry.server r).2 := by
  cases client with
  | done a => exact .refl r
  | eventId name next => exact r.within_eventId name
  | insert c next => exact r.within_insert c
  | contract id next => exact .refl r

theorem Meets.bind {holds : Registry → α → Prop} {holds' : Registry → β → Prop} {client : Client α}
    {f : α → Client β} (meets : client.Meets holds r)
    (next : ∀ a q, r.Within q → holds q a → (f a).Meets holds' q) : (client.bind f).Meets holds' r := by
  induction client generalizing r with
  | done a => exact next a r (.refl r) meets
  | eventId name later ih =>
    intro q grown
    apply ih _ (meets q grown)
    intro a p more
    exact next a p ((grown.trans (q.within_eventId name)).trans more)
  | insert c later ih =>
    intro q grown
    apply ih _ (meets q grown)
    intro a p more
    exact next a p ((grown.trans (q.within_insert c)).trans more)
  | contract id later ih =>
    intro q grown
    apply ih _ (meets q grown)
    intro a p more
    exact next a p (grown.trans more)

/-- Names have the numbers that are given for them, or no number is left. -/
def Named (names : List String) (r : Registry) : StoreResult (List Nat) → Prop
  | .ok ids => List.Forall₂ r.NumberOf names ids
  | .error e => e = .panic .addition ∧ Numeral.limit64 ≤ r.names.length + 1

theorem eventId_named (name : String) (r : Registry) :
    (∃ id, (r.eventId name).1 = .ok id ∧ (r.eventId name).2.NumberOf name id) ∨
      ((r.eventId name).1 = .error (.panic .addition) ∧ Numeral.limit64 ≤ (r.eventId name).2.names.length + 1) := by
  unfold Registry.eventId
  split
  · next listed =>
    exact .inl ⟨_, rfl, _, List.getElem?_idxOf listed, rfl⟩
  split
  · exact .inl ⟨_, rfl, _, List.getElem?_concat_length, rfl⟩
  · next full => exact .inr ⟨rfl, Nat.not_lt.mp full⟩

theorem meets_eventIds (names : List String) (r : Registry) :
    (Onboarding.eventIds services names).Meets (Named names) r := by
  induction names generalizing r with
  | nil => exact .nil
  | cons name names ih =>
    -- Others are served before the next name, so the number has to hold of a registry that has grown.
    intro q grown
    change (Client.bind _ _).Meets _ _
    rcases eventId_named name q with ⟨id, given, number⟩ | ⟨given, full⟩
    · rw [given]
      apply (ih _).bind
      intro others p more named
      cases others with
      | error e => exact named
      | ok ids => exact .cons (number.within more) named
    · rw [given]
      exact ⟨rfl, full⟩

theorem insert_answers (c : Contract) (r : Registry) :
    (r.insert c).2.Answers (.insert c) (.id (r.insert c).1) := by
  unfold Registry.insert
  split
  · next listed => exact .inl ⟨rfl, listed⟩
  split
  · exact List.getElem?_concat_length
  · next full => exact .inr ⟨rfl, Nat.not_lt.mp full⟩

theorem meets_call (c : Call) (r : Registry) : c.client.Meets (fun q a => q.Answers c a) r := by
  cases c with
  | eventId name =>
    intro q grown
    rcases eventId_named name q with ⟨id, given, number⟩ | ⟨given, full⟩
    · rw [given]
      exact number
    · rw [given]
      exact ⟨rfl, full⟩
  | insert c =>
    intro q grown
    exact insert_answers c q
  | contract id =>
    intro q grown
    cases found : q.contract? id with
    | none => trivial
    | some c => exact found
  | build interface =>
    apply (meets_eventIds _ r).bind
    intro given q grown named
    cases given with
    | error e => exact named
    | ok ids => exact Registry.numbersOf_of_forall₂ named

def EndsIn : Client α → Nat → Prop
  | .done _, _ => True
  | .eventId _ next, n => ∃ k, n = k + 1 ∧ ∀ given, (next given).EndsIn k
  | .insert _ next, n => ∃ k, n = k + 1 ∧ ∀ given, (next given).EndsIn k
  | .contract _ next, n => ∃ k, n = k + 1 ∧ ∀ found, (next found).EndsIn k

theorem EndsIn.step {σ : Type} (server : Server σ) {client : Client α} {n : Nat} (ends : client.EndsIn n)
    (s : σ) : (client.step server s).1.EndsIn (n - 1) := by
  cases client with
  | done a => trivial
  | eventId name next =>
    obtain ⟨k, rfl, later⟩ := ends
    exact later _
  | insert c next =>
    obtain ⟨k, rfl, later⟩ := ends
    exact later _
  | contract id next =>
    obtain ⟨k, rfl, later⟩ := ends
    exact later _

theorem EndsIn.done {client : Client α} (ends : client.EndsIn 0) : ∃ a, client = .done a := by
  cases client with
  | done a => exact ⟨a, rfl⟩
  | _ =>
    obtain ⟨k, impossible, -⟩ := ends
    contradiction

theorem EndsIn.bind {client : Client α} {f : α → Client β} {n : Nat} (ends : client.EndsIn n)
    (next : ∀ a, ∃ b, f a = .done b) : (client.bind f).EndsIn n := by
  induction client generalizing n with
  | done a =>
    obtain ⟨b, last⟩ := next a
    rw [Client.bind, last]
    trivial
  | eventId name later ih =>
    obtain ⟨k, rfl, others⟩ := ends
    exact ⟨k, rfl, fun given => ih given (others given)⟩
  | insert c later ih =>
    obtain ⟨k, rfl, others⟩ := ends
    exact ⟨k, rfl, fun given => ih given (others given)⟩
  | contract id later ih =>
    obtain ⟨k, rfl, others⟩ := ends
    exact ⟨k, rfl, fun found => ih found (others found)⟩

end Client

namespace Pool
variable {p : Pool Registry}

def Sound (p : Pool Registry) : Prop :=
  ∀ e ∈ p.calls, e.2.Meets (fun r a => r.Answers e.1 a) p.state

theorem Sound.turn (sound : p.Sound) (t : Turn) : (p.turn Registry.server t).Sound := by
  cases t with
  | call c =>
    intro e member
    rcases List.mem_append.mp member with earlier | last
    · exact sound e earlier
    · obtain rfl := List.mem_singleton.mp last
      exact Client.meets_call c p.state
  | serve n =>
    rw [Pool.turn]
    cases asked : p.calls[n]? with
    | none => rwa [serve_none asked]
    | some e =>
      rw [serve_some asked]
      intro d member
      rcases List.mem_or_eq_of_mem_set member with other | rfl
      · exact (sound d other).within (fun _ _ _ grown fits => fits.within grown)
          (Client.within_step e.2 p.state)
      · exact (sound e (List.mem_of_getElem? asked)).step

theorem Sound.run (sound : p.Sound) (turns : List Turn) : (p.run Registry.server turns).Sound := by
  induction turns generalizing p with
  | nil => exact sound
  | cons t turns ih => exact ih (sound.turn t)

variable {σ : Type} (server : Server σ)

end Pool

namespace Store

/-- Two clients name the same events in different orders, one service each in turn. -/
example : (shared [.call (.build (.array [.array [.string "event", .string "Transfer"],
      .array [.string "event", .string "Approval"]])),
    .call (.build (.array [.array [.string "event", .string "Approval"]])),
    .serve 0, .serve 1, .serve 0]).state.events = [("Approval", 2), ("Transfer", 1)] := by
  decide +kernel

end Store

end ContractRegistry
