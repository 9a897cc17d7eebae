import ContractRegistry.Proofs.Onboarding.Rounds

/-!
Batches over one store, in a world that answers as it likes.

Accepted contracts are numbered from one on without a gap, over all batches, and each address is
accepted once at most, however it is written. What is asked of the world follows from the batches and
their outcomes.
-/
namespace ContractRegistry

inductive Contact where
  | fetched (address : Address)
  | launched (ids : List Nat)
deriving DecidableEq, Repr

/-- A world whose answers may depend on all that it was asked before. -/
structure Outside (α : Type) where
  metadata : List Contact → Address → Except FetchError Metadata
  launcher : Option (List Contact → List Nat → α)

def Onboarder.batches {m : Type → Type} [Monad m] {α : Type} (o : Onboarder m α) :
    List (Option String × List String) → ExceptT Panic m (List (Option (BatchReport α)))
  | [] => pure []
  | b :: bs => do
    let report ← o.batch b.1 b.2
    let reports ← o.batches bs
    pure (report :: reports)

namespace Outside
variable {α : Type} (outside : Outside α)

def fetch (address : Address) : StateM (List Contact) (Except FetchError Metadata) :=
  fun contacts => (outside.metadata contacts address, contacts ++ [.fetched address])

def launch (launcher : List Contact → List Nat → α) (ids : List Nat) :
    StateT Store (StateM (List Contact)) α :=
  fun s contacts => ((launcher contacts ids, s), contacts ++ [.launched ids])

def onboarder (key : Option String) : Onboarder (StateT Store (StateM (List Contact))) α :=
  ⟨Command.storeServices outside.fetch, key, outside.launcher.map launch⟩

/-- The contacts for handing on: one, if somebody takes contracts and there are any. -/
def launches (ids : List Nat) : List Contact :=
  if outside.launcher.isSome = true ∧ ids ≠ [] then [.launched ids] else []

/-- The contacts for a batch, of which there are none without a report. -/
def contactsFor (texts : List String) : Option (BatchReport α) → List Contact
  | none => []
  | some report =>
    (texts.filterMap Address.parse?).map .fetched ++
      outside.launches (BatchReport.acceptedIds report.outcomes)

end Outside

namespace Store

/-- Contracts under the numbers from one on, no two of one address. -/
structure Filled (s : Store) (cs : List Contract) : Prop where
  last : s.lastContract = cs.length
  placed : s.contracts = (List.range' 1 cs.length).zip cs
  apart : (cs.map Contract.address).Nodup

variable {s t u : Store} {cs : List Contract}

theorem filled_empty : Filled .empty [] :=
  ⟨rfl, rfl, .nil⟩

theorem filled_same (filled : s.Filled cs) (same : SameContracts s t) : t.Filled cs :=
  ⟨same.1.trans filled.last, same.2.trans filled.placed, filled.apart⟩

theorem Filled.contracts_eq (filled : s.Filled cs) : s.contracts.map Prod.snd = cs := by
  rw [filled.placed, List.map_snd_zip]
  exact Nat.le_of_eq List.length_range'.symm

theorem lookup_numbered (cs : List Contract) (first k : Nat) :
    ((List.range' first cs.length).zip cs).lookup (first + k) = cs[k]? := by
  induction cs generalizing first k with
  | nil => rfl
  | cons c cs ih =>
    rw [List.length_cons, List.range'_succ, List.zip_cons_cons, List.lookup_cons]
    cases k with
    | zero => simp
    | succ k =>
      have later := ih (first + 1) k
      rw [Nat.add_right_comm] at later
      rw [beq_false_of_ne (by omega)]
      exact later

theorem Filled.contract?_eq (filled : s.Filled cs) {k : Nat} {c : Contract} (listed : cs[k]? = some c) :
    s.contract? (k + 1) = some c := by
  rw [contract?, filled.placed, Nat.add_comm, lookup_numbered, listed]

theorem insert_fresh {c : Contract} {id : Nat} (stored : s.insert c = .ok (id, u)) :
    ∀ e ∈ s.contracts, e.2.address ≠ c.address := by
  unfold insert at stored
  split at stored
  · contradiction
  · next fresh => simpa [hasAddress] using fresh

theorem filled_insert {c : Contract} {id : Nat} (filled : s.Filled cs) (stored : s.insert c = .ok (id, u)) :
    id = cs.length + 1 ∧ u.Filled (cs ++ [c]) := by
  have fresh := insert_fresh stored
  obtain ⟨next, -, rfl⟩ := insert_cases stored
  rw [filled.last] at next
  have below : ∀ e ∈ s.contracts, e.1 < id := by
    rw [filled.placed]
    intro e member
    have number := (List.of_mem_zip member).1
    rw [List.mem_range'_1] at number
    omega
  refine ⟨next, ?_, ?_, ?_⟩
  · rw [next, List.length_append]
    rfl
  · dsimp only
    rw [place_eq_insertEntry, insertEntry_last c below, filled.placed, List.length_append,
      List.length_singleton, List.range'_1_concat, List.zip_append List.length_range', next,
      Nat.add_comm 1]
    rfl
  · rw [List.map_append, List.map_singleton, List.nodup_append]
    refine ⟨filled.apart, List.pairwise_singleton _ _, ?_⟩
    intro old member new last same
    obtain rfl := List.mem_singleton.mp last
    rw [← filled.contracts_eq, List.map_map] at member
    obtain ⟨e, known, located⟩ := List.mem_map.mp member
    exact fresh e known (located.trans same)

theorem filled_settlesAll {α : Type} {texts : List String} {os : List Outcome}
    (settled : SettlesAll s texts os t) (filled : s.Filled cs) (b : Option (List Nat × α)) :
    ∃ more, t.Filled (cs ++ more) ∧
      BatchReport.acceptedIds os = List.range' (cs.length + 1) more.length ∧
      (BatchReport.mk os b).success.map Address.parse? = more.map fun c => some c.address := by
  induction settled generalizing cs with
  | nil s => exact ⟨[], (List.append_nil cs).symm ▸ filled, rfl, rfl⟩
  | cons first others ih =>
    cases first with
    | @accepted _ _ c _ parsed named stored =>
      obtain ⟨rfl, grown⟩ := filled_insert (filled_same filled named) stored
      obtain ⟨more, full, ids, located⟩ := ih grown
      rw [List.length_append, List.length_singleton] at ids
      refine ⟨c :: more, ?_, congrArg (List.cons _) ids, List.cons_eq_cons.mpr ⟨parsed, located⟩⟩
      rwa [List.append_cons]
    | rejected named early => exact ih (filled_same filled named)

end Store

namespace Outside
variable {α : Type} (outside : Outside α) (key : Option String)

open Store (SettlesAll Filled)

theorem asked_fetched (text : String) (contacts : List Contact) :
    asked outside.fetch text contacts =
      contacts ++ (Address.parse? text).toList.map Contact.fetched := by
  unfold asked
  cases Address.parse? text with
  | none => exact (List.append_nil contacts).symm
  | some address => rfl

theorem foldl_asked (texts : List String) (contacts : List Contact) :
    texts.foldl (fun w text => asked outside.fetch text w) contacts =
      contacts ++ (texts.filterMap Address.parse?).map Contact.fetched := by
  induction texts generalizing contacts with
  | nil => exact (List.append_nil contacts).symm
  | cons text texts ih =>
    rw [List.foldl_cons, ih, asked_fetched, List.append_assoc, ← List.map_append]
    cases parsed : Address.parse? text <;> simp [parsed]

theorem handOn_run (ids : List Nat) (s : Store) (contacts : List Contact) :
    ∃ backfill, (outside.onboarder key).handOn ids s contacts =
      ((backfill, s), contacts ++ outside.launches ids) := by
  unfold Onboarder.handOn launches onboarder
  cases outside.launcher with
  | none => exact ⟨none, congrArg (Prod.mk _) (List.append_nil contacts).symm⟩
  | some launcher =>
    by_cases none : ids = []
    · subst none
      exact ⟨.none, congrArg (Prod.mk _) (List.append_nil contacts).symm⟩
    · refine ⟨some (ids, launcher contacts ids), ?_⟩
      rw [if_pos ⟨rfl, none⟩]
      dsimp only [Option.map_some]
      rw [if_neg none]
      rfl

theorem batch_of_outcomes {credential : Option String}
    (admitted : (outside.onboarder key).admits credential = true) {texts : List String} {s t : Store}
    {contacts : List Contact} {os : List Outcome}
    (run : (Onboarding.outcomes (Command.storeServices outside.fetch) texts s contacts).1 = (.ok os, t)) :
    ∃ backfill, (outside.onboarder key).batch credential texts s contacts =
      ((.ok (some ⟨os, backfill⟩), t), contacts ++ outside.contactsFor texts (some ⟨os, backfill⟩)) := by
  rcases outcomes_run outside.fetch texts s contacts with
    ⟨os', t', done, -⟩ | ⟨p, t', v, stopped, -⟩
  · rw [done] at run
    obtain ⟨⟨⟩, rfl⟩ := Prod.mk.inj run
    rw [foldl_asked] at done
    obtain ⟨backfill, handed⟩ := outside.handOn_run key (BatchReport.acceptedIds os) t'
      (contacts ++ (texts.filterMap Address.parse?).map Contact.fetched)
    refine ⟨backfill, ?_⟩
    unfold Onboarder.batch contactsFor
    rw [if_pos admitted, ← List.append_assoc]
    exact (bind_done done).trans (bind_done (lift_run handed))
  · rw [stopped] at run
    cases run

theorem batch_of_panic {credential : Option String}
    (admitted : (outside.onboarder key).admits credential = true) {texts : List String} {s t : Store}
    {contacts asked : List Contact} {p : Panic}
    (stopped : Onboarding.outcomes (Command.storeServices outside.fetch) texts s contacts =
      ((.error p, t), asked)) :
    (outside.onboarder key).batch credential texts s contacts = ((.error p, t), asked) := by
  unfold Onboarder.batch
  rw [if_pos admitted]
  exact bind_stopped stopped

theorem batch_admitted {credential : Option String}
    (admitted : (outside.onboarder key).admits credential = true) (texts : List String) (s : Store)
    (contacts : List Contact) :
    (∃ os backfill t, (outside.onboarder key).batch credential texts s contacts =
      ((.ok (some ⟨os, backfill⟩), t), contacts ++ outside.contactsFor texts (some ⟨os, backfill⟩)) ∧
      SettlesAll s texts os t) ∨
    ∃ p t asked, (outside.onboarder key).batch credential texts s contacts = ((.error p, t), asked) ∧
      PanicsAmong outside.fetch s contacts texts p asked := by
  rcases outcomes_run outside.fetch texts s contacts with ⟨os, t, run, settled⟩ | ⟨p, t, v, stopped, panics⟩
  · obtain ⟨backfill, reported⟩ := outside.batch_of_outcomes key admitted (congrArg Prod.fst run)
    exact .inl ⟨os, backfill, t, reported, settled⟩
  · exact .inr ⟨p, t, v, outside.batch_of_panic key admitted stopped, panics⟩

theorem batch_refused {credential : Option String}
    (refused : (outside.onboarder key).admits credential = false) (texts : List String) (s : Store)
    (contacts : List Contact) :
    (outside.onboarder key).batch credential texts s contacts = ((.ok none, s), contacts) := by
  rw [Onboarder.batch_refused _ refused]
  rfl

/-- What holds of batches, their reports, the store behind them and all that was asked. -/
structure RunLaw (submitted : List (Option String × List String)) (reports : List (Option (BatchReport α)))
    (s : Store) (contacts : List Contact) : Prop where
  answered : (reports.map fun r => r.map fun report => report.outcomes.map Outcome.address) =
    submitted.map fun b => if (outside.onboarder key).admits b.1 then some b.2 else none
  numbered : (reports.filterMap id).flatMap (fun report => BatchReport.acceptedIds report.outcomes) =
    List.range' 1 s.contracts.length
  stored : ∀ k text, ((reports.filterMap id).flatMap BatchReport.success)[k]? = some text →
    ∃ c, s.contract? (k + 1) = some c ∧ Address.parse? text = some c.address
  once : (((reports.filterMap id).flatMap BatchReport.success).map Address.parse?).Nodup
  asked : contacts = (submitted.zip reports).flatMap fun r => outside.contactsFor r.1.2 r.2
  refused : ∀ credential texts t earlier, (outside.onboarder key).admits credential = false →
    (outside.onboarder key).batch credential texts t earlier = ((.ok none, t), earlier)

structure Reported (before : Nat) (submitted : List (Option String × List String))
    (reports : List (Option (BatchReport α))) (more : List Contract) : Prop where
  answered : (reports.map fun r => r.map fun report => report.outcomes.map Outcome.address) =
    submitted.map fun b => if (outside.onboarder key).admits b.1 then some b.2 else none
  numbered : (reports.filterMap id).flatMap (fun report => BatchReport.acceptedIds report.outcomes) =
    List.range' (before + 1) more.length
  located : ((reports.filterMap id).flatMap BatchReport.success).map Address.parse? =
    more.map fun c => some c.address

theorem Reported.refused {before : Nat} {submitted : List (Option String × List String)}
    {reports : List (Option (BatchReport α))} {more : List Contract} {credential : Option String}
    (refused : (outside.onboarder key).admits credential = false) (texts : List String)
    (others : outside.Reported key before submitted reports more) :
    outside.Reported key before ((credential, texts) :: submitted) (none :: reports) more := by
  refine ⟨?_, others.numbered, others.located⟩
  rw [List.map_cons, List.map_cons, others.answered, refused]
  rfl

theorem Reported.admitted {before : Nat} {submitted : List (Option String × List String)}
    {reports : List (Option (BatchReport α))} {own more : List Contract} {credential : Option String}
    {report : BatchReport α} (admitted : (outside.onboarder key).admits credential = true)
    (ids : BatchReport.acceptedIds report.outcomes = List.range' (before + 1) own.length)
    (parsed : report.success.map Address.parse? = own.map fun c => some c.address)
    (others : outside.Reported key (before + own.length) submitted reports more) :
    outside.Reported key before ((credential, report.outcomes.map Outcome.address) :: submitted)
      (some report :: reports) (own ++ more) := by
  have given : (some report :: reports).filterMap id = report :: reports.filterMap id := rfl
  refine ⟨?_, ?_, ?_⟩
  · rw [List.map_cons, List.map_cons, others.answered, admitted]
    rfl
  · have numbered := others.numbered
    rw [Nat.add_right_comm] at numbered
    rw [given, List.flatMap_cons, ids, numbered, List.length_append]
    exact List.range'_append_1
  · rw [given, List.flatMap_cons, List.map_append, parsed, others.located,
      List.map_append]

theorem batches_append (first second : List (Option String × List String)) :
    (outside.onboarder key).batches (first ++ second) = (do
      let reports ← (outside.onboarder key).batches first
      let more ← (outside.onboarder key).batches second
      pure (reports ++ more)) := by
  induction first with
  | nil => simp [Onboarder.batches]
  | cons b bs ih => simp [Onboarder.batches, ih]

/-- A panic ends batches on a store: those before one of them have reports, and in that one a text
panics. -/
inductive Stops (s : Store) (contacts : List Contact) :
    List (Option String × List String) → Panic → List Contact → Prop where
  | behind {done rest : List (Option String × List String)} {credential : Option String}
    {texts : List String} {reports : List (Option (BatchReport α))} {t : Store}
    {earlier asked : List Contact} {p : Panic}
    (run : (outside.onboarder key).batches done s contacts = ((.ok reports, t), earlier))
    (admitted : (outside.onboarder key).admits credential = true)
    (panics : PanicsAmong outside.fetch t earlier texts p asked) :
    Stops s contacts (done ++ (credential, texts) :: rest) p asked

theorem Stops.cons {s t : Store} {contacts earlier asked : List Contact} {b : Option String × List String}
    {bs : List (Option String × List String)} {report : Option (BatchReport α)} {p : Panic}
    (first : (outside.onboarder key).batch b.1 b.2 s contacts = ((.ok report, t), earlier))
    (others : outside.Stops key t earlier bs p asked) : outside.Stops key s contacts (b :: bs) p asked := by
  obtain @⟨done, rest, credential, texts, reports, _, _, _, _, run, admitted, panics⟩ := others
  have onward : (outside.onboarder key).batches (b :: done) s contacts = ((.ok (report :: reports), _), _) :=
    (bind_done first).trans (bind_done run)
  exact .behind onward admitted panics

theorem batches_stop {s : Store} {contacts asked : List Contact}
    {submitted : List (Option String × List String)} {p : Panic}
    (stops : outside.Stops key s contacts submitted p asked) :
    ∃ t, (outside.onboarder key).batches submitted s contacts = ((.error p, t), asked) := by
  obtain ⟨run, admitted, panics⟩ := stops
  obtain ⟨u, stopped⟩ := outcomes_panic outside.fetch panics
  refine ⟨u, ?_⟩
  rw [batches_append]
  exact (bind_done run).trans (bind_stopped (bind_stopped (outside.batch_of_panic key admitted stopped)))

theorem batches_run (submitted : List (Option String × List String)) {s : Store} {cs : List Contract}
    (filled : s.Filled cs) (contacts : List Contact) :
    (∃ reports t more, (outside.onboarder key).batches submitted s contacts =
      ((.ok reports, t), contacts ++
        (submitted.zip reports).flatMap fun r => outside.contactsFor r.1.2 r.2) ∧
      t.Filled (cs ++ more) ∧ outside.Reported key cs.length submitted reports more) ∨
    ∃ p t asked, (outside.onboarder key).batches submitted s contacts = ((.error p, t), asked) ∧
      outside.Stops key s contacts submitted p asked := by
  induction submitted generalizing s cs contacts with
  | nil =>
    refine .inl ⟨[], s, [], ?_, ?_, rfl, rfl, rfl⟩
    · rw [List.zip_nil_left, List.flatMap_nil, List.append_nil]
      rfl
    · rwa [List.append_nil]
  | cons b bs ih =>
    obtain ⟨credential, texts⟩ := b
    cases admitted : (outside.onboarder key).admits credential with
    | false =>
      have first := outside.batch_refused key admitted texts s contacts
      rcases ih filled contacts with ⟨reports, t, more, others, full, reported⟩ | ⟨p, t, asked, others, stops⟩
      · exact .inl ⟨none :: reports, t, more, (bind_done first).trans (bind_done others), full,
          reported.refused outside key admitted texts⟩
      · exact .inr ⟨p, t, asked, (bind_done first).trans (bind_stopped others),
          stops.cons outside key first⟩
    | true =>
      rcases outside.batch_admitted key admitted texts s contacts with
        ⟨os, backfill, t, first, settled⟩ | ⟨p, t, asked, first, panics⟩
      · obtain ⟨own, grown, ids, parsed⟩ := Store.filled_settlesAll settled filled backfill
        obtain rfl := Store.settlesAll_addresses settled
        rcases ih grown (contacts ++ outside.contactsFor (os.map Outcome.address) (some ⟨os, backfill⟩)) with
          ⟨reports, u, more, others, full, reported⟩ | ⟨p, u, asked, others, stops⟩
        · rw [List.append_assoc] at full
          rw [List.length_append] at reported
          refine .inl ⟨some ⟨os, backfill⟩ :: reports, u, own ++ more, ?_, full,
            reported.admitted outside key admitted ids parsed⟩
          rw [List.append_assoc] at others
          exact (bind_done first).trans (bind_done others)
        · exact .inr ⟨p, u, asked, (bind_done first).trans (bind_stopped others),
            stops.cons outside key first⟩
      · have nothing : (outside.onboarder key).batches [] s contacts = ((.ok [], s), contacts) := rfl
        exact .inr ⟨p, t, asked, bind_stopped first, .behind nothing admitted panics⟩

/-- Batches that all have reports keep numbers, addresses and what is handed on together. -/
theorem runLaw_of_reports {submitted : List (Option String × List String)}
    {reports : List (Option (BatchReport α))} {s : Store} {contacts : List Contact}
    (run : (outside.onboarder key).batches submitted .empty [] = ((.ok reports, s), contacts)) :
    outside.RunLaw key submitted reports s contacts := by
  rcases outside.batches_run key submitted Store.filled_empty [] with
    ⟨_, _, cs, run', filled, reported⟩ | ⟨_, _, _, stopped, -⟩
  · cases run.symm.trans run'
    rw [List.nil_append] at filled
    have count : s.contracts.length = cs.length := by
      rw [← filled.contracts_eq, List.length_map]
    refine ⟨reported.answered, ?_, ?_, ?_, List.nil_append _,
      fun _ texts t earlier refused => outside.batch_refused key refused texts t earlier⟩
    · rw [count]
      exact reported.numbered
    · intro k text accepted
      have parsed := congrArg (fun addresses => addresses[k]?) reported.located
      rw [List.getElem?_map, accepted, List.getElem?_map] at parsed
      obtain ⟨c, listed, located⟩ := Option.map_eq_some_iff.mp parsed.symm
      exact ⟨c, filled.contract?_eq listed, located.symm⟩
    · rw [reported.located]
      have apart := List.pairwise_map.mp filled.apart
      unfold List.Nodup
      rw [List.pairwise_map]
      exact apart.imp fun differ same => differ (Option.some.inj same)
  · cases run.symm.trans stopped

/-- What holds of batches, however they end. A panic leaves the batch in which it happens without a
report. Behind the batches before it, which follow the law, one of its texts then panics: there is metadata
for the text, and the layout of its source or a full store ends in the panic. After that nothing is asked,
so nothing of this batch is handed on. -/
structure Consistent (submitted : List (Option String × List String))
    (result : Except Panic (List (Option (BatchReport α)))) (s : Store) (contacts : List Contact) :
    Prop where
  reported : ∀ reports, result = .ok reports → outside.RunLaw key submitted reports s contacts
  earlier : ∀ done rest reports t before, submitted = done ++ rest →
    (outside.onboarder key).batches done .empty [] = ((.ok reports, t), before) →
      outside.RunLaw key done reports t before
  stopped_iff : ∀ p, result = .error p ↔ outside.Stops key .empty [] submitted p contacts

/-- Batches over a store that was empty in the beginning keep numbers, addresses and what is handed on
together, up to a panic. -/
theorem batches_consistent (submitted : List (Option String × List String)) :
    ∃ result s contacts,
      (outside.onboarder key).batches submitted .empty [] = ((result, s), contacts) ∧
        outside.Consistent key submitted result s contacts := by
  have earlier {submitted : List (Option String × List String)} :
      ∀ done rest reports t before, submitted = done ++ rest →
        (outside.onboarder key).batches done .empty [] = ((.ok reports, t), before) →
          outside.RunLaw key done reports t before :=
    fun done rest reports t before _ run => outside.runLaw_of_reports key run
  rcases outside.batches_run key submitted Store.filled_empty [] with
    ⟨reports, t, cs, run, -⟩ | ⟨p, t, asked, run, stops⟩
  · refine ⟨_, t, _, run, ?_, earlier, fun p => ⟨fun stopped => by contradiction, fun stops => ?_⟩⟩
    · rintro _ ⟨⟩
      exact outside.runLaw_of_reports key run
    · obtain ⟨u, stopped⟩ := outside.batches_stop key stops
      cases run.symm.trans stopped
  · refine ⟨_, t, asked, run, fun reports done => by contradiction, earlier, fun p' => ⟨?_, fun stops => ?_⟩⟩
    · rintro ⟨⟩
      exact stops
    · obtain ⟨u, stopped⟩ := outside.batches_stop key stops
      cases run.symm.trans stopped
      rfl

/-- A source with two values behind all slots but the last. -/
def fullMetadata : Metadata :=
  ⟨"", .null, "contract C { uint256[18446744073709551615] a; uint256 b; uint256 c; }"⟩

def smallMetadata : Metadata :=
  ⟨"", .null, "contract C { uint256 x; }"⟩

/-- A world where one address has the full source, and all others have a small one. -/
def oneFull : Outside Unit where
  metadata _ address := .ok (if address = 0xA1 then fullMetadata else smallMetadata)
  launcher := some fun _ _ => ()

def threeTexts : List String :=
  ["0x00000000000000000000000000000000000000b1", "0x00000000000000000000000000000000000000a1",
    "0x00000000000000000000000000000000000000c1"]

/-- The last variable of the second address has no slot. The address is not rejected: none of the three
gets an outcome. -/
theorem full_address_ends_batch :
    ¬ ∀ (outside : Outside Unit) (key : Option String) (submitted : List (Option String × List String)),
      ∃ reports s contacts,
        (outside.onboarder key).batches submitted .empty [] = ((.ok reports, s), contacts) ∧
          outside.RunLaw key submitted reports s contacts := by
  intro all
  obtain ⟨reports, s, contacts, run, -⟩ := all oneFull none [(none, threeTexts)]
  obtain ⟨result, t, first, -, panicked⟩ :=
    onboard_run oneFull.fetch "0x00000000000000000000000000000000000000b1" .empty []
  cases result with
  | error p =>
    obtain ⟨address, metadata, parsed, fetched, panics⟩ := (panicked p).mp rfl
    have located : Address.parse? "0x00000000000000000000000000000000000000b1" = some 0xB1 := by
      decide +kernel
    cases located.symm.trans parsed
    have answer : (oneFull.fetch 0xB1 []).1 = .ok smallMetadata := rfl
    cases answer.symm.trans fetched
    have kept : (Store.empty.offer 0xB1 smallMetadata).map Prod.fst = .ok (1, "C") := by decide +kernel
    rw [panics] at kept
    cases kept
  | ok o =>
    have located : Address.parse? "0x00000000000000000000000000000000000000a1" = some 0xA1 := by
      decide +kernel
    have resolved : Onboarding.resolve fullMetadata = .error (.panic .addition) := by decide +kernel
    have panics (w : List Contact) :
        Panics oneFull.fetch t w "0x00000000000000000000000000000000000000a1" .addition :=
      ⟨0xA1, fullMetadata, located, rfl, bind_of_eq_error resolved⟩
    have nothing : (oneFull.onboarder none).batches [] .empty [] = ((.ok [], .empty), []) := rfl
    have stops : oneFull.Stops none .empty [] [(none, threeTexts)] .addition _ :=
      .behind nothing rfl (.later first (.here (panics _)))
    obtain ⟨u, stopped⟩ := oneFull.batches_stop none stops
    rw [stopped] at run
    cases run

end Outside

end ContractRegistry
