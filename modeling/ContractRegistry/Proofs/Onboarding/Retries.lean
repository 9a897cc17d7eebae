import ContractRegistry.Proofs.Onboarding.Batches
import Mathlib.Data.List.Nodup

/-!
Rounds of a run: what becomes of each submitted text.

A text leaves the run when it is accepted, or when it is rejected and not submitted again. Each does so
once. Of the rejections with which texts leave, those are not reported whose text is submitted again
all the same, because it also stood elsewhere in the round.
-/
namespace ContractRegistry

open Onboarder (Round accepted failed)

/-- The rejections of a round after which a text is not submitted again. -/
def Onboarder.Round.closing {α : Type} (r : Round α) : List (String × Rejection) :=
  r.report.failures.filter fun f => r.retried.isEmpty || !f.2.isTransient

structure Onboarder.Accounts {α : Type} (texts : List String) (rounds : List (Round α)) : Prop where
  counted : (accepted rounds).length + (rounds.flatMap Round.closing).length = texts.length
  reported : failed rounds =
    rounds.flatMap fun r => r.closing.filter fun f => !r.retried.contains f.1
  complete_iff : (accepted rounds).length + (failed rounds).length = texts.length ↔
    ∀ r ∈ rounds, ∀ f ∈ r.closing, f.1 ∉ r.retried
  kept : (∀ r ∈ rounds, ∀ f ∈ r.closing, f.1 ∉ r.retried) → failed rounds = rounds.flatMap Round.closing
  distinct : texts.Nodup → ∀ r ∈ rounds, ∀ f ∈ r.closing, f.1 ∉ r.retried

namespace BatchReport
variable {α : Type} (report : BatchReport α)

theorem length_success_add_failures :
    report.success.length + report.failures.length = report.outcomes.length := by
  obtain ⟨os, backfill⟩ := report
  unfold success failures
  induction os with
  | nil => rfl
  | cons o os ih =>
    dsimp only at ih ⊢
    cases o <;> simp <;> omega

theorem length_retryable :
    (report.failures.filter fun f => !f.2.isTransient).length + report.retryable.length =
      report.failures.length := by
  have parts := List.length_eq_countP_add_countP
    (fun f : String × Rejection => f.2.isTransient) (l := report.failures)
  unfold retryable
  rw [List.length_map, parts, Nat.add_comm]
  simp [List.countP_eq_length_filter]

theorem mem_retryable {f : String × Rejection} (member : f ∈ report.failures)
    (transient : f.2.isTransient = true) : f.1 ∈ report.retryable :=
  List.mem_map.mpr ⟨f, List.mem_filter.mpr ⟨member, transient⟩, rfl⟩

end BatchReport

namespace Onboarder
variable {α : Type} {texts : List String} {rounds : List (Round α)}

theorem closing_last (report : BatchReport α) : (Round.mk report []).closing = report.failures :=
  List.filter_eq_self.mpr fun _ _ => rfl

theorem closing_more {report : BatchReport α} (left : report.retryable ≠ []) :
    (Round.mk report report.retryable).closing = report.failures.filter fun f => !f.2.isTransient := by
  unfold Round.closing
  dsimp only
  rw [List.isEmpty_eq_false_iff.mpr left]
  rfl

theorem Rounds.counted (run : Rounds texts rounds) :
    (accepted rounds).length + (rounds.flatMap Round.closing).length = texts.length := by
  unfold accepted
  induction run with
  | @last report texts covers =>
    have parts := report.length_success_add_failures
    rw [← covers, List.length_map, List.flatMap_singleton, List.flatMap_singleton, closing_last]
    exact parts
  | @more report texts rounds covers left others ih =>
    have parts := report.length_success_add_failures
    have again := report.length_retryable
    rw [← covers, List.length_map, List.flatMap_cons, List.flatMap_cons, closing_more left,
      List.length_append, List.length_append]
    dsimp only
    omega

theorem Rounds.retried_cases (run : Rounds texts rounds) :
    ∀ r ∈ rounds, r.retried = [] ∨ r.retried = r.report.retryable := by
  induction run with
  | last covers =>
    intro r member
    obtain rfl := List.mem_singleton.mp member
    exact .inl rfl
  | more covers left others ih =>
    intro r member
    rcases List.mem_cons.mp member with rfl | later
    · exact .inr rfl
    · exact ih r later

theorem reported_closing {r : Round α} (cases : r.retried = [] ∨ r.retried = r.report.retryable) :
    (r.report.failures.filter fun f => !r.retried.contains f.1) =
      r.closing.filter fun f => !r.retried.contains f.1 := by
  unfold Round.closing
  rw [List.filter_filter]
  apply List.filter_congr
  intro f member
  cases contained : r.retried.contains f.1 with
  | true => rfl
  | false =>
    rcases cases with none | again
    · rw [none]
      rfl
    · cases transient : f.2.isTransient with
      | false => simp
      | true =>
        have submitted := r.report.mem_retryable member transient
        rw [← again] at submitted
        rw [List.contains_iff_mem.mpr submitted] at contained
        contradiction

theorem Rounds.reported (run : Rounds texts rounds) :
    failed rounds = rounds.flatMap fun r => r.closing.filter fun f => !r.retried.contains f.1 := by
  unfold failed
  have each := run.retried_cases
  clear run
  induction rounds with
  | nil => rfl
  | cons r rounds ih =>
    rw [List.flatMap_cons, List.flatMap_cons, reported_closing (each r List.mem_cons_self),
      ih fun r' member => each r' (List.mem_cons_of_mem r member)]

theorem length_flatMap_filter_le {β γ : Type} (parts : List β) (whole : β → List γ)
    (keep : β → γ → Bool) :
    (parts.flatMap fun b => (whole b).filter (keep b)).length ≤ (parts.flatMap whole).length := by
  induction parts with
  | nil => exact Nat.le_refl 0
  | cons b parts ih =>
    have below := List.length_filter_le (keep b) (whole b)
    rw [List.flatMap_cons, List.flatMap_cons, List.length_append, List.length_append]
    omega

theorem length_flatMap_filter {β γ : Type} (parts : List β) (whole : β → List γ) (keep : β → γ → Bool) :
    (parts.flatMap fun b => (whole b).filter (keep b)).length = (parts.flatMap whole).length ↔
      ∀ b ∈ parts, ∀ c ∈ whole b, keep b c = true := by
  induction parts with
  | nil => simp
  | cons b parts ih =>
    have below := List.length_filter_le (keep b) (whole b)
    have others := length_flatMap_filter_le parts whole keep
    rw [List.flatMap_cons, List.flatMap_cons, List.length_append, List.length_append,
      List.forall_mem_cons, ← ih, ← List.length_filter_eq_length_iff]
    omega

theorem Rounds.distinct (run : Rounds texts rounds) (differ : texts.Nodup) :
    ∀ r ∈ rounds, ∀ f ∈ r.closing, f.1 ∉ r.retried := by
  induction run with
  | last covers =>
    intro r member f closing
    obtain rfl := List.mem_singleton.mp member
    exact List.not_mem_nil
  | @more report texts rounds covers left others ih =>
    rw [← covers] at differ
    have apart := report.failures_sublist.nodup differ
    intro r member
    rcases List.mem_cons.mp member with rfl | later
    · rw [closing_more left]
      intro f closing again
      obtain ⟨rejected, permanent⟩ := List.mem_filter.mp closing
      obtain ⟨g, transient, same⟩ := List.mem_map.mp again
      obtain ⟨rejected', transient⟩ := List.mem_filter.mp transient
      -- The text has one rejection in the round, which cannot be both.
      obtain rfl := List.inj_on_of_nodup_map apart rejected' rejected same
      simp [transient] at permanent
    · exact ih ((List.filter_sublist.map Prod.fst).nodup apart) r later

theorem Rounds.accounts (run : Rounds texts rounds) : Accounts texts rounds where
  counted := run.counted
  reported := run.reported
  complete_iff := by
    have counted := run.counted
    have each := length_flatMap_filter rounds Round.closing fun r f => !r.retried.contains f.1
    rw [← run.reported] at each
    simp only [Bool.not_eq_true', List.contains_eq_mem, decide_eq_false_iff_not] at each
    rw [← each]
    omega
  kept none := by
    rw [run.reported]
    apply List.flatMap_congr
    intro r member
    apply List.filter_eq_self.mpr
    intro f closing
    simp [none r member f closing]
  distinct := run.distinct

end Onboarder

namespace Outside
variable {α : Type} (outside : Outside α) (key : Option String)

theorem rounds_run {credential : Option String}
    (admitted : (outside.onboarder key).admits credential = true)
    (tell : Nat → BatchReport α → StateT Store (StateM (List Contact)) Unit) (round retries : Nat)
    (texts : List String) (s : Store) (contacts : List Contact) :
    (∃ rounds t after, (outside.onboarder key).rounds credential tell round retries texts s contacts =
      ((.ok (some rounds), t), after) ∧ Onboarder.Rounds texts rounds) ∨
    ∃ p t after, (outside.onboarder key).rounds credential tell round retries texts s contacts =
      ((.error p, t), after) ∧ ∃ text ∈ texts, MayPanic outside.fetch text p := by
  have steps : (outside.onboarder key).Steps credential tell (fun _ _ => True)
      (MayPanic outside.fetch) := by
    refine ⟨fun texts s contacts _ => ?_, fun round report s contacts _ => ⟨_, _, rfl, trivial⟩⟩
    rcases outside.batch_admitted key admitted texts s contacts with
      ⟨os, backfill, t, run, settled⟩ | ⟨p, t, after, run, panics⟩
    · exact .inl ⟨_, t, _, run, Store.settlesAll_addresses settled, trivial⟩
    · exact .inr ⟨p, t, after, run, panics.mayPanic⟩
  rcases Onboarder.rounds_run (outside.onboarder key) credential tell steps round retries texts s contacts
    trivial with ⟨rounds, t, after, run, ends, -⟩ | stopped
  · exact .inl ⟨rounds, t, after, run, ends⟩
  · exact .inr stopped

/-- Every submitted text is accounted for, and reported unless its rejection shares a round with a
submission of the same text that goes on. Rounds that do not come to their end meet a text that panics. -/
theorem rounds_accounted {credential : Option String}
    (admitted : (outside.onboarder key).admits credential = true)
    (tell : Nat → BatchReport α → StateT Store (StateM (List Contact)) Unit) (retries : Nat)
    (texts : List String) (s : Store) (contacts : List Contact) :
    (∃ rounds t after, (outside.onboarder key).rounds credential tell 0 retries texts s contacts =
      ((.ok (some rounds), t), after) ∧ Onboarder.Accounts texts rounds) ∨
    ∃ p t after, (outside.onboarder key).rounds credential tell 0 retries texts s contacts =
      ((.error p, t), after) ∧ ∃ text ∈ texts, MayPanic outside.fetch text p := by
  rcases outside.rounds_run key admitted tell 0 retries texts s contacts with
    ⟨rounds, t, after, run, ends⟩ | stopped
  · exact .inl ⟨rounds, t, after, run, ends.accounts⟩
  · exact .inr stopped

/-- A world that is busy at first and has no metadata later. -/
def busyOnce : Outside Unit where
  metadata contacts address :=
    if contacts = [] then .error (.transient "busy") else .error (.notFound address)
  launcher := none

theorem busyOnce_never_panics (text : String) (p : Panic) : ¬ MayPanic busyOnce.fetch text p := by
  rintro ⟨s, contacts, address, metadata, -, fetched, -⟩
  simp only [fetch, busyOnce] at fetched
  split at fetched <;> cases fetched

def paddedText (digits : String) : String :=
  "0x" ++ String.ofList (List.replicate 38 '0') ++ digits

theorem two_texts_accounted :
    (busyOnce.onboarder none).admits none = true ∧ ∃ rounds t after,
      (busyOnce.onboarder none).rounds none (fun _ _ => pure ()) 0 1 [paddedText "a1", paddedText "b1"]
        .empty [] = ((.ok (some rounds), t), after) ∧
      Onboarder.Accounts [paddedText "a1", paddedText "b1"] rounds ∧
      (accepted rounds).length + (failed rounds).length = 2 := by
  have admitted : (busyOnce.onboarder none).admits none = true := rfl
  rcases busyOnce.rounds_accounted none admitted (fun _ _ => pure ()) 1
    [paddedText "a1", paddedText "b1"] .empty [] with
    ⟨rounds, t, after, run, accounts⟩ | ⟨p, t, after, -, text, -, panics⟩
  · exact ⟨admitted, rounds, t, after, run, accounts,
      accounts.complete_iff.mpr (accounts.distinct (by decide))⟩
  · exact absurd panics (busyOnce_never_panics text p)

/-- One address submitted twice is rejected for now and then for good. The second rejection is lost
with the first. -/
theorem same_text_unreported :
    ¬ ∀ (outside : Outside Unit) (key credential : Option String)
      (tell : Nat → BatchReport Unit → StateT Store (StateM (List Contact)) Unit) (retries : Nat)
      (texts : List String) (s t : Store) (contacts after : List Contact) (rounds : List (Round Unit)),
      (outside.onboarder key).rounds credential tell 0 retries texts s contacts =
        ((.ok (some rounds), t), after) →
          (accepted rounds).length + (failed rounds).length = texts.length := by
  intro all
  have reports : ((busyOnce.onboarder none).rounds none (fun _ _ => pure ()) 0 1
      [paddedText "a1", paddedText "a1"] .empty []).1.1.map
        (fun rounds => rounds.map fun rounds => (accepted rounds).length + (failed rounds).length) =
      .ok (some 1) := by
    decide +kernel
  have admitted : (busyOnce.onboarder none).admits none = true := rfl
  rcases busyOnce.rounds_run none admitted (fun _ _ => pure ()) 0 1
    [paddedText "a1", paddedText "a1"] .empty [] with
    ⟨rounds, t, after, run, -⟩ | ⟨p, t, after, -, text, -, panics⟩
  · have two := all busyOnce none none (fun _ _ => pure ()) 1 _ .empty t [] after rounds run
    rw [run] at reports
    have different : [paddedText "a1", paddedText "a1"].length = 1 :=
      two.symm.trans (Option.some.inj (Except.ok.inj reports))
    exact absurd different (by simp)
  · exact absurd panics (busyOnce_never_panics text p)

end Outside

end ContractRegistry
