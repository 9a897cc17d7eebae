import ContractRegistry.Proofs.Onboarding.Rounds

/-!
What a batch leaves behind in a system that answers as it likes.

Programs are started before the store is saved. When it is saved, all contracts that were handed on are
in the file. When saving fails, they were handed on all the same.
-/
namespace ContractRegistry

open CommandLine (BatchRequest)
open Console (Terminal)
open Json (Value)
open Store (SettlesAll)

inductive Deed where
  | read (path : String)
  | wrote (path : String) (bytes : List UInt8) (answer : Except FileError Unit)
  | started (program : String) (arguments : List String)
  | awaited (number : Nat)
  | printed (lines : List String)

/-- A system whose answers may depend on all that was done before. -/
structure Surroundings where
  read : List Deed → String → Except FileError (List UInt8)
  write : List Deed → String → List UInt8 → Except FileError Unit
  start : List Deed → String → List String → Nat
  await : List Deed → Nat → Except FileError ProcessRun

def Surroundings.host (o : Surroundings) : Host (StateM (List Deed)) where
  read path := fun deeds => (o.read deeds path, deeds ++ [.read path])
  write path bytes := fun deeds =>
    (o.write deeds path bytes, deeds ++ [.wrote path bytes (o.write deeds path bytes)])
  start program arguments := fun deeds =>
    (o.start deeds program arguments, deeds ++ [.started program arguments])
  await number := fun deeds => (o.await deeds number, deeds ++ [.awaited number])
  print lines := fun deeds => ((), deeds ++ [.printed lines])

namespace Deed

def Quiet : Deed → Prop
  | .wrote _ _ _ => False
  | .started _ _ => False
  | _ => True

/-- Nothing is written, and all that is handed on is in a store. -/
def Covered (r : BatchRequest) (s : Store) : Deed → Prop
  | .wrote _ _ _ => False
  | .started _ arguments => ∃ ids : List Nat, arguments = r.backfillArgs ++ ids.map toString ∧
    ∀ id ∈ ids, (s.contract? id).isSome = true
  | _ => True

def leaves (path : String) : Deed → Option (List UInt8)
  | .wrote other bytes (.ok ()) => if other = path then some bytes else none
  | _ => none

def start? : Deed → Option (String × List String)
  | .started program arguments => some (program, arguments)
  | _ => none

theorem mem_of_start? {deeds : List Deed} {program : String} {arguments : List String}
    (member : (program, arguments) ∈ deeds.filterMap start?) : .started program arguments ∈ deeds := by
  obtain ⟨d, there, start⟩ := List.mem_filterMap.mp member
  cases d with
  | started other others =>
    obtain ⟨rfl, rfl⟩ := Prod.mk.inj (Option.some.inj start)
    exact there
  | _ => contradiction

theorem Quiet.covered {r : BatchRequest} {s : Store} {d : Deed} (quiet : d.Quiet) : d.Covered r s := by
  cases d with
  | wrote path bytes answer => exact quiet
  | started program arguments => exact quiet.elim
  | _ => trivial

theorem Quiet.leaves {path : String} {d : Deed} (quiet : d.Quiet) : d.leaves path = none := by
  cases d with
  | wrote path bytes answer => exact quiet.elim
  | _ => rfl

end Deed

/-- The bytes in a file that nobody else writes, after some deeds. -/
def Surroundings.left (o : Surroundings) (path : String) (deeds : List Deed) :
    Except FileError (List UInt8) :=
  match (deeds.filterMap (Deed.leaves path)).getLast? with
  | some bytes => .ok bytes
  | none => o.read [] path

def Extends (P : Deed → Prop) (before after : List Deed) : Prop :=
  ∃ more, after = before ++ more ∧ ∀ d ∈ more, P d

namespace Extends
variable {P Q : Deed → Prop} {u v w : List Deed}

theorem refl (u : List Deed) : Extends P u u :=
  ⟨[], (List.append_nil u).symm, fun _ member => absurd member List.not_mem_nil⟩

theorem one {d : Deed} (holds : P d) : Extends P u (u ++ [d]) :=
  ⟨[d], rfl, List.forall_mem_singleton.mpr holds⟩

theorem trans (first : Extends P u v) (second : Extends P v w) : Extends P u w := by
  obtain ⟨more, rfl, holds⟩ := first
  obtain ⟨most, rfl, holds'⟩ := second
  refine ⟨more ++ most, List.append_assoc u more most, ?_⟩
  intro d member
  rcases List.mem_append.mp member with early | late
  · exact holds d early
  · exact holds' d late

theorem all (extended : Extends P [] u) : ∀ d ∈ u, P d := by
  obtain ⟨more, rfl, holds⟩ := extended
  exact holds

theorem mono (weaker : ∀ d, P d → Q d) (extended : Extends P u v) : Extends Q u v := by
  obtain ⟨more, rfl, holds⟩ := extended
  exact ⟨more, rfl, fun d member => weaker d (holds d member)⟩

end Extends

namespace Store

def Grows (s t : Store) : Prop :=
  ∀ id, (s.contract? id).isSome = true → (t.contract? id).isSome = true

variable {s t u : Store}

theorem grows_insert {c : Contract} {id : Nat} (stored : s.insert c = .ok (id, t)) :
    Grows s t ∧ (t.contract? id).isSome = true := by
  obtain ⟨-, -, rfl⟩ := insert_cases stored
  constructor
  · intro k there
    unfold contract? at there ⊢
    rw [place_eq_insertEntry, lookup_insertEntry]
    split
    · rfl
    · exact there
  · unfold contract?
    rw [place_eq_insertEntry, lookup_insertEntry, beq_self_eq_true]
    rfl

theorem grows_same (same : SameContracts s t) : Grows s t := by
  intro id there
  unfold contract? at there ⊢
  rwa [same.2]

theorem grows_settles {text : String} {o : Outcome} (settles : Settles s text o t) :
    Grows s t ∧ ∀ id ∈ BatchReport.acceptedIds [o], (t.contract? id).isSome = true := by
  cases settles with
  | accepted parsed named stored =>
    obtain ⟨grows, there⟩ := grows_insert stored
    exact ⟨fun id known => grows id (grows_same named id known), List.forall_mem_singleton.mpr there⟩
  | rejected named early => exact ⟨grows_same named, fun _ member => absurd member List.not_mem_nil⟩

theorem grows_settlesAll {texts : List String} {os : List Outcome} (settled : SettlesAll s texts os t) :
    Grows s t ∧ ∀ id ∈ BatchReport.acceptedIds os, (t.contract? id).isSome = true := by
  induction settled with
  | nil s => exact ⟨fun _ known => known, fun _ member => absurd member List.not_mem_nil⟩
  | @cons s t u text texts o os first others ih =>
    obtain ⟨grows, there⟩ := grows_settles first
    refine ⟨fun id known => ih.1 id (grows id known), ?_⟩
    intro id member
    have parts : BatchReport.acceptedIds (o :: os) =
        BatchReport.acceptedIds [o] ++ BatchReport.acceptedIds os := List.filterMap_append (l := [o])
    rw [parts] at member
    rcases List.mem_append.mp member with early | late
    · exact ih.1 id (there id early)
    · exact ih.2 id late

end Store

namespace Surroundings
variable (o : Surroundings) (r : BatchRequest)

open Command (fetchFile onboarder)

theorem asked_quiet (text : String) (deeds : List Deed) :
    Extends Deed.Quiet deeds (asked (fetchFile o.host r.metadataDir) text deeds) := by
  unfold asked
  cases Address.parse? text with
  | none => exact .refl deeds
  | some address => exact .one trivial

theorem foldl_asked_quiet (texts : List String) (deeds : List Deed) :
    Extends Deed.Quiet deeds
      (texts.foldl (fun deeds text => asked (fetchFile o.host r.metadataDir) text deeds) deeds) := by
  induction texts generalizing deeds with
  | nil => exact .refl deeds
  | cons text texts ih => exact (o.asked_quiet r text deeds).trans (ih _)

theorem handOn_covered {ids : List Nat} {s : Store}
    (there : ∀ id ∈ ids, (s.contract? id).isSome = true) (deeds : List Deed) :
    ∃ backfill after, (onboarder o.host r).handOn ids s deeds = ((backfill, s), after) ∧
      Extends (Deed.Covered r s) deeds after := by
  unfold Onboarder.handOn onboarder
  cases r.backfillProgram with
  | none => exact ⟨none, deeds, rfl, .refl deeds⟩
  | some program =>
    by_cases none : ids = []
    · subst none
      exact ⟨.none, deeds, rfl, .refl deeds⟩
    · dsimp only [Option.map_some]
      rw [if_neg none]
      exact ⟨_, _, rfl, .one ⟨ids, rfl, there⟩⟩

theorem covered_mono {s t : Store} (grows : s.Grows t) {d : Deed} (covered : d.Covered r s) :
    d.Covered r t := by
  cases d with
  | started program arguments =>
    obtain ⟨ids, same, there⟩ := covered
    exact ⟨ids, same, fun id member => grows id (there id member)⟩
  | wrote path bytes answer => exact covered
  | _ => trivial

theorem batch_covered (admitted : (onboarder o.host r).admits r.credential = true)
    {before : List Deed} (texts : List String) (s : Store) (deeds : List Deed)
    (covered : Extends (Deed.Covered r s) before deeds) :
    (∃ report t after, (onboarder o.host r).batch r.credential texts s deeds =
      ((.ok (some report), t), after) ∧ report.outcomes.map Outcome.address = texts ∧
      Extends (Deed.Covered r t) before after) ∨
    ∃ p t after, (onboarder o.host r).batch r.credential texts s deeds = ((.error p, t), after) ∧
      ∃ text ∈ texts, MayPanic (fetchFile o.host r.metadataDir) text p := by
  unfold Onboarder.batch
  rw [if_pos admitted]
  rcases outcomes_run (fetchFile o.host r.metadataDir) texts s deeds with
    ⟨os, t, run, settled⟩ | ⟨p, t, after, run, panics⟩
  · obtain ⟨grows, there⟩ := Store.grows_settlesAll settled
    obtain ⟨backfill, after, handed, started⟩ := o.handOn_covered r there
      (texts.foldl (fun deeds text => asked (fetchFile o.host r.metadataDir) text deeds) deeds)
    have earlier : Extends (Deed.Covered r t) before deeds := covered.mono fun _ => covered_mono r grows
    have fetched : Extends (Deed.Covered r t) deeds _ :=
      (o.foldl_asked_quiet r texts deeds).mono fun _ => Deed.Quiet.covered
    exact .inl ⟨⟨os, backfill⟩, t, after, (bind_done run).trans (bind_done (lift_run handed)),
      Store.settlesAll_addresses settled, earlier.trans (fetched.trans started)⟩
  · exact .inr ⟨p, t, after, bind_stopped run, panics.mayPanic⟩

theorem showRound_quiet (t : Terminal) (round : Nat) (report : BatchReport Command.Dispatch) (s : Store)
    (deeds : List Deed) :
    ∃ after, Command.showRound o.host t r round report s deeds = (((), s), after) ∧
      Extends Deed.Quiet deeds after := by
  unfold Command.showRound
  cases r.json with
  | true => exact ⟨deeds, rfl, .refl deeds⟩
  | false => exact ⟨_, rfl, .one trivial⟩

theorem rounds_covered (t : Terminal) (admitted : (onboarder o.host r).admits r.credential = true)
    (s : Store) (deeds : List Deed) :
    (∃ rounds u after, Command.rounds o.host t r s deeds = ((.ok (some rounds), u), after) ∧
      Extends (Deed.Covered r u) deeds after) ∨
    ∃ p u after, Command.rounds o.host t r s deeds = ((.error p, u), after) ∧
      ∃ text ∈ r.addresses, MayPanic (fetchFile o.host r.metadataDir) text p := by
  have steps : (onboarder o.host r).Steps r.credential (Command.showRound o.host t r)
      (fun u after => Extends (Deed.Covered r u) deeds after)
      (MayPanic (fetchFile o.host r.metadataDir)) := by
    refine ⟨fun texts s after covered => o.batch_covered r admitted texts s after covered, ?_⟩
    intro round report s before covered
    obtain ⟨after, told, quiet⟩ := o.showRound_quiet r t round report s before
    exact ⟨s, after, told, covered.trans (quiet.mono fun _ => Deed.Quiet.covered)⟩
  rcases Onboarder.rounds_run (onboarder o.host r) r.credential (Command.showRound o.host t r) steps 0
    r.retries r.addresses s deeds (.refl deeds) with ⟨rounds, u, after, run, -, covered⟩ | stopped
  · exact .inl ⟨rounds, u, after, run, covered⟩
  · exact .inr stopped

theorem rounds_refused (t : Terminal) (refused : (onboarder o.host r).admits r.credential = false)
    (s : Store) (deeds : List Deed) :
    Command.rounds o.host t r s deeds = ((.ok none, s), deeds) := by
  unfold Command.rounds
  rw [Onboarder.rounds_refused _ refused]
  rfl

theorem awaitAll_quiet (dispatches : List Command.Dispatch) (deeds : List Deed) :
    ∃ results after, Command.awaitAll o.host dispatches deeds = (results, after) ∧
      Extends Deed.Quiet deeds after := by
  induction dispatches generalizing deeds with
  | nil => exact ⟨[], deeds, rfl, .refl deeds⟩
  | cons d ds ih =>
    obtain ⟨results, after, others, quiet⟩ := ih (deeds ++ [.awaited d.number])
    have first : o.host.await d.number deeds =
      (o.await deeds d.number, deeds ++ [.awaited d.number]) := rfl
    have opened : Extends Deed.Quiet deeds (deeds ++ [.awaited d.number]) := .one trivial
    exact ⟨_, after, (bind_state first).trans (bind_state others), opened.trans quiet⟩

theorem showTotals_quiet (t : Terminal) (rounds : List (Onboarder.Round Command.Dispatch))
    (deeds : List Deed) :
    ∃ after, Command.showTotals o.host t r rounds deeds = ((), after) ∧
      Extends Deed.Quiet deeds after := by
  unfold Command.showTotals
  refine ⟨_, rfl, ?_⟩
  exact .one trivial

theorem showBackfills_quiet (t : Terminal) (rounds : List (Onboarder.Round Command.Dispatch))
    (deeds : List Deed) :
    ∃ after, Command.showBackfills o.host t r rounds deeds = ((), after) ∧
      Extends Deed.Quiet deeds after := by
  obtain ⟨results, after, awaited, quiet⟩ := o.awaitAll_quiet
    (rounds.filterMap fun round => round.report.backfill.map Prod.snd) deeds
  unfold Command.showBackfills
  cases json : r.json with
  | true => exact ⟨after, bind_state awaited, quiet⟩
  | false =>
    refine ⟨_, bind_state awaited, quiet.trans ?_⟩
    exact .one trivial

inductive Ending (path : String) : Except (Failure CommandError) Unit → List Deed → Prop where
  | idle {e : CommandError} {deeds : List Deed} (quiet : ∀ d ∈ deeds, d.Quiet) :
    Ending path (.error (.told e)) deeds
  | stopped {p : Panic} {deeds : List Deed}
    (panics : ∃ text ∈ r.addresses, MayPanic (fetchFile o.host r.metadataDir) text p) :
    Ending path (.error (.panic p)) deeds
  | unsaved {s : Store} {cause : FileError} {deeds : List Deed} (covered : ∀ d ∈ deeds, d.Covered r s) :
    Ending path (.error (.told (.saving path (.io cause.message))))
      (deeds ++ [.wrote path (Snapshot.toFile s) (.error cause)])
  | saved {s : Store} {deeds later : List Deed} (covered : ∀ d ∈ deeds, d.Covered r s)
    (quiet : ∀ d ∈ later, d.Quiet) :
    Ending path (.ok ()) (deeds ++ .wrote path (Snapshot.toFile s) (.ok ()) :: later)

theorem load_quiet (path : String) (deeds : List Deed) :
    ∃ result, Command.load o.host (some path) deeds = (result, deeds ++ [.read path]) := by
  unfold Command.load
  have read : o.host.read path deeds = (o.read deeds path, deeds ++ [.read path]) := rfl
  cases loaded : Snapshot.ofFile (o.read deeds path) with
  | error e =>
    refine ⟨.error (.loading path e), (bind_state read).trans ?_⟩
    rw [loaded]
    rfl
  | ok s =>
    refine ⟨.ok s, (bind_state read).trans ?_⟩
    rw [loaded]
    rfl

theorem save_run (t : Terminal) {path : String} (kept : r.store = some path) (s : Store)
    (deeds : List Deed) :
    (∃ cause : FileError, Command.save o.host t r s deeds =
      (.error (.saving path (.io cause.message)),
        deeds ++ [.wrote path (Snapshot.toFile s) (.error cause)])) ∨
    ∃ after, Command.save o.host t r s deeds = (.ok (), after) ∧
      Extends Deed.Quiet (deeds ++ [.wrote path (Snapshot.toFile s) (.ok ())]) after := by
  unfold Command.save
  rw [kept]
  dsimp only
  have wrote : o.host.write path (Snapshot.toFile s) deeds = (o.write deeds path (Snapshot.toFile s),
      deeds ++ [.wrote path (Snapshot.toFile s) (o.write deeds path (Snapshot.toFile s))]) := rfl
  cases answer : o.write deeds path (Snapshot.toFile s) with
  | error cause =>
    rw [answer] at wrote
    exact .inl ⟨cause, bind_state wrote⟩
  | ok _ =>
    rw [answer] at wrote
    cases json : r.json with
    | true => exact .inr ⟨_, bind_state wrote, .refl _⟩
    | false => exact .inr ⟨_, bind_state wrote, .one trivial⟩

theorem batch_ending (t : Terminal) {path : String} (kept : r.store = some path) :
    o.Ending r path (Command.batch o.host t r []).1 (Command.batch o.host t r []).2 := by
  suffices ending : ∃ result deeds, Command.batch o.host t r [] = (result, deeds) ∧
      o.Ending r path result deeds by
    obtain ⟨result, deeds, run, ending⟩ := ending
    rw [run]
    exact ending
  unfold Command.batch
  rw [kept]
  obtain ⟨result, loaded⟩ := o.load_quiet path []
  cases result with
  | error e => exact ⟨_, _, bind_state loaded, .idle (List.forall_mem_singleton.mpr trivial)⟩
  | ok s =>
    cases admitted : (onboarder o.host r).admits r.credential with
    | false =>
      have refused := o.rounds_refused r t admitted s [.read path]
      exact ⟨_, _, (bind_state loaded).trans (bind_state refused),
        .idle (List.forall_mem_singleton.mpr trivial)⟩
    | true =>
      rcases o.rounds_covered r t admitted s [.read path] with
        ⟨rounds, u, after, run, covered⟩ | ⟨p, u, after, run, panics⟩
      · obtain ⟨shown, printed, quiet⟩ := o.showTotals_quiet r t rounds after
        have opened : Extends (Deed.Covered r u) [] [.read path] := .one trivial
        have before := opened.trans (covered.trans (quiet.mono fun _ => Deed.Quiet.covered))
        rcases o.save_run r t kept u shown with ⟨cause, saved⟩ | ⟨written, saved, silent⟩
        · refine ⟨_, shown ++ [.wrote path (Snapshot.toFile u) (.error cause)],
            (bind_state loaded).trans ((bind_state run).trans ?_), .unsaved before.all⟩
          exact (bind_state printed).trans (bind_state saved)
        · obtain ⟨last, reported, rest⟩ := o.showBackfills_quiet r t rounds written
          obtain ⟨later, rfl, still⟩ := silent.trans rest
          refine ⟨.ok (), _, (bind_state loaded).trans ((bind_state run).trans ?_),
            .saved before.all still⟩
          refine (bind_state printed).trans ((bind_state saved).trans ((bind_state reported).trans ?_))
          rw [List.append_assoc]
          rfl
      · exact ⟨_, after, (bind_state loaded).trans (bind_state run), .stopped panics⟩

theorem left_saved (path : String) (bytes : List UInt8) {deeds later : List Deed}
    (quiet : ∀ d ∈ later, d.Quiet) :
    o.left path (deeds ++ .wrote path bytes (.ok ()) :: later) = .ok bytes := by
  have none : later.filterMap (Deed.leaves path) = [] :=
    List.filterMap_eq_nil_iff.mpr fun d member => (quiet d member).leaves
  have one : Deed.leaves path (.wrote path bytes (.ok ())) = some bytes := if_pos rfl
  unfold left
  rw [List.filterMap_append, List.filterMap_cons_some one, none, List.getLast?_concat]

end Surroundings

/-- Whether a file is the snapshot of a store and names a contract under a number. -/
def Snapshot.Lists (file : Except FileError (List UInt8)) (id : Nat) : Prop :=
  ∃ s, file = .ok (Snapshot.toFile s) ∧
    (((Snapshot.store s).member? "contracts").bind (Value.member? (toString id))).isSome = true

theorem Snapshot.lists_of_contract? {s : Store} {id : Nat} (there : (s.contract? id).isSome = true) :
    Snapshot.Lists (.ok (Snapshot.toFile s)) id := by
  refine ⟨s, rfl, ?_⟩
  obtain ⟨c, found⟩ := Option.isSome_iff_exists.mp there
  obtain ⟨before, after, placed, -⟩ := List.lookup_eq_some_iff.mp found
  have member : (id, c) ∈ s.contracts := by
    rw [placed]
    simp
  have listed : (Snapshot.store s).member? "contracts" =
      some (.object (s.contracts.map fun e => (toString e.1, Snapshot.contract e.2))) := rfl
  rw [listed, Option.bind_some, Value.member?, List.lookup_isSome_iff]
  exact ⟨_, List.mem_map_of_mem member, beq_self_eq_true _⟩

namespace Surroundings
variable (o : Surroundings) (r : BatchRequest)

/-- What is left of a batch: all that was handed on is in the file when the batch ends well, and when it
ends with an error, only a failed saving comes after contracts were handed on. Otherwise an address of the
request panics. -/
structure Persists (path : String) (result : Except (Failure CommandError) Unit) (deeds : List Deed) :
    Prop where
  saved : result = .ok () → ∀ (program : String) (ids : List Nat),
    .started program (r.backfillArgs ++ ids.map toString) ∈ deeds →
      ∀ id ∈ ids, Snapshot.Lists (o.left path deeds) id
  failed : ∀ e, result = .error (.told e) →
    (∀ program arguments, .started program arguments ∉ deeds) ∨ ∃ cause, e = .saving path cause
  stopped : ∀ p, result = .error (.panic p) →
    ∃ text ∈ r.addresses, MayPanic (Command.fetchFile o.host r.metadataDir) text p

theorem covered_listed {s : Store} {program : String} {ids : List Nat}
    (covered : (Deed.started program (r.backfillArgs ++ ids.map toString)).Covered r s) :
    ∀ id ∈ ids, Snapshot.Lists (.ok (Snapshot.toFile s)) id := by
  obtain ⟨ids', same, there⟩ := covered
  intro id member
  have text := List.mem_map_of_mem (f := (toString : Nat → String)) member
  rw [List.append_cancel_left same] at text
  obtain ⟨id', member', same⟩ := List.mem_map.mp text
  have listed := Snapshot.lists_of_contract? (there id' member')
  unfold Snapshot.Lists at listed ⊢
  rwa [same] at listed

theorem Ending.persists {path : String} {result : Except (Failure CommandError) Unit} {deeds : List Deed}
    (ending : o.Ending r path result deeds) : o.Persists r path result deeds := by
  cases ending with
  | idle quiet =>
    refine ⟨by simp, ?_, by simp⟩
    intro e error
    exact .inl fun program arguments started => quiet _ started
  | stopped panics =>
    refine ⟨by simp, by simp, ?_⟩
    rintro p ⟨⟩
    exact panics
  | unsaved covered =>
    refine ⟨by simp, ?_, by simp⟩
    rintro e ⟨⟩
    exact .inr ⟨_, rfl⟩
  | saved covered quiet =>
    refine ⟨?_, by simp, by simp⟩
    intro ok program ids started id member
    rw [o.left_saved path _ quiet]
    rcases List.mem_append.mp started with early | late
    · exact covered_listed r (covered _ early) id member
    · rcases List.mem_cons.mp late with written | later
      · contradiction
      · exact (quiet _ later).elim

/-- No contract is missing from a snapshot that is saved. -/
theorem batch_persists (t : Terminal) {path : String} (kept : r.store = some path) :
    o.Persists r path (Command.batch o.host t r []).1 (Command.batch o.host t r []).2 :=
  Ending.persists o r (o.batch_ending r t kept)

/-- A system without a snapshot, with the metadata of one contract under all other paths, and with or
without room for the snapshot. -/
def oneContract (room : Except FileError Unit) : Surroundings where
  read _ path :=
    if path = "store.json" then .error .notFound
    else .ok (Text.Utf8.encode
      "\x7b\"name\":\"B\",\"abi\":[],\"source_code\":\"contract B \x7b uint256 x; \x7d\"\x7d".toList)
  write _ _ _ := room
  start _ _ _ := 0
  await _ _ := .error .notFound

def oneRequest : BatchRequest where
  addresses := ["0x00000000000000000000000000000000000000b1"]
  metadataDir := "meta"
  store := some "store.json"
  backfillBin := some "backfill"
  backfillArgs := []
  noBackfill := false
  apiKey := none
  credential := none
  retries := 0
  json := true

theorem saved_with_room :
    oneRequest.store = some "store.json" ∧
      (oneContract (.ok ())).Persists oneRequest "store.json"
        (Command.batch (oneContract (.ok ())).host ⟨false⟩ oneRequest []).1
        (Command.batch (oneContract (.ok ())).host ⟨false⟩ oneRequest []).2 :=
  ⟨rfl, (oneContract (.ok ())).batch_persists oneRequest ⟨false⟩ rfl⟩

/-- Without room for the snapshot a contract is handed on that is in no file. -/
theorem handed_on_unsaved :
    ¬ ∀ (o : Surroundings) (r : BatchRequest) (t : Terminal) (path : String), r.store = some path →
      ∀ (program : String) (ids : List Nat),
        .started program (r.backfillArgs ++ ids.map toString) ∈ (Command.batch o.host t r []).2 →
          ∀ id ∈ ids, Snapshot.Lists (o.left path (Command.batch o.host t r []).2) id := by
  intro all
  obtain ⟨starts, writes⟩ :
      (Command.batch (oneContract (.error .noSpace)).host ⟨false⟩ oneRequest []).2.filterMap
        Deed.start? = [("backfill", ["1"])] ∧
      (Command.batch (oneContract (.error .noSpace)).host ⟨false⟩ oneRequest []).2.filterMap
        (Deed.leaves "store.json") = [] := by
    decide +kernel
  have started : .started "backfill" (oneRequest.backfillArgs ++ [1].map toString) ∈
      (Command.batch (oneContract (.error .noSpace)).host ⟨false⟩ oneRequest []).2 := by
    apply Deed.mem_of_start?
    rw [starts]
    exact List.mem_singleton.mpr rfl
  have nothing : (oneContract (.error .noSpace)).left "store.json"
      (Command.batch (oneContract (.error .noSpace)).host ⟨false⟩ oneRequest []).2 =
        .error .notFound := by
    unfold left
    rw [writes]
    rfl
  obtain ⟨s, file, -⟩ := all _ oneRequest ⟨false⟩ "store.json" rfl "backfill" [1] started 1
    (List.mem_singleton_self 1)
  rw [nothing] at file
  cases file

end Surroundings

end ContractRegistry
