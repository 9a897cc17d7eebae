import ContractRegistry.Proofs.Onboarding.Settling

/-!
Rounds of a run, for any onboarder.

What each batch of a submitter preserves, all rounds preserve, up to a panic. A submitter without the
key gets nothing in any round.
-/
namespace ContractRegistry

theorem BatchReport.failures_sublist {α : Type} (report : BatchReport α) :
    (report.failures.map Prod.fst).Sublist (report.outcomes.map Outcome.address) := by
  obtain ⟨os, backfill⟩ := report
  unfold failures
  induction os with
  | nil => exact .slnil
  | cons o os ih =>
    cases o with
    | accepted address id name => exact ih.cons _
    | rejected address reason => exact ih.cons_cons _

theorem BatchReport.retryable_sublist {α : Type} (report : BatchReport α) :
    report.retryable.Sublist (report.outcomes.map Outcome.address) :=
  (List.filter_sublist.map Prod.fst).trans report.failures_sublist

namespace Onboarder

section
variable {m : Type → Type} [Monad m] {α : Type} (o : Onboarder m α) {credential : Option String}

theorem batch_refused (refused : o.admits credential = false) (texts : List String) :
    o.batch credential texts = pure none := by
  unfold batch
  rw [refused]
  rfl

theorem rounds_refused [LawfulMonad m] (refused : o.admits credential = false)
    (tell : Nat → BatchReport α → m Unit) (round retries : Nat) (texts : List String) :
    o.rounds credential tell round retries texts = pure none := by
  cases retries with
  | zero => rw [rounds, o.batch_refused refused, pure_bind]
  | succ retries => rw [rounds, o.batch_refused refused, pure_bind]

end

inductive Rounds {α : Type} : List String → List (Round α) → Prop where
  | last {report : BatchReport α} {texts : List String}
    (covers : report.outcomes.map Outcome.address = texts) : Rounds texts [⟨report, []⟩]
  | more {report : BatchReport α} {texts : List String} {rounds : List (Round α)}
    (covers : report.outcomes.map Outcome.address = texts) (left : report.retryable ≠ [])
    (others : Rounds report.retryable rounds) : Rounds texts (⟨report, report.retryable⟩ :: rounds)

section
variable {σ α : Type} (o : Onboarder (StateT Store (StateM σ)) α) (credential : Option String)
  (tell : Nat → BatchReport α → StateT Store (StateM σ) Unit)

/-- A property of the store and the world that telling a report keeps. Every batch has a report on its
texts and keeps the property too, or ends in a panic for one of its texts. -/
structure Steps (Holds : Store → σ → Prop) (Broken : String → Panic → Prop) : Prop where
  batch : ∀ texts s w, Holds s w →
    (∃ report t v, o.batch credential texts s w = ((.ok (some report), t), v) ∧
      report.outcomes.map Outcome.address = texts ∧ Holds t v) ∨
    ∃ p t v, o.batch credential texts s w = ((.error p, t), v) ∧ ∃ text ∈ texts, Broken text p
  tell : ∀ round report s w, Holds s w → ∃ t v, tell round report s w = (((), t), v) ∧ Holds t v

theorem rounds_run {Holds : Store → σ → Prop} {Broken : String → Panic → Prop}
    (steps : o.Steps credential tell Holds Broken) (round retries : Nat) (texts : List String)
    (s : Store) (w : σ) (holds : Holds s w) :
    (∃ rounds t v, o.rounds credential tell round retries texts s w = ((.ok (some rounds), t), v) ∧
      Rounds texts rounds ∧ Holds t v) ∨
    ∃ p t v, o.rounds credential tell round retries texts s w = ((.error p, t), v) ∧
      ∃ text ∈ texts, Broken text p := by
  -- The texts, the store and the world of a round are those that the round before left.
  induction retries generalizing round texts s w with
  | zero =>
    rcases steps.batch texts s w holds with ⟨report, t, v, run, covers, holds⟩ | ⟨p, t, v, run, broken⟩
    · obtain ⟨u, x, told, holds⟩ := steps.tell round report t v holds
      exact .inl ⟨[⟨report, []⟩], u, x, (bind_done run).trans (bind_done (lift_run told)),
        .last covers, holds⟩
    · exact .inr ⟨p, t, v, bind_stopped run, broken⟩
  | succ retries ih =>
    rcases steps.batch texts s w holds with ⟨report, t, v, run, covers, holds⟩ | ⟨p, t, v, run, broken⟩
    · obtain ⟨u, x, told, holds⟩ := steps.tell round report t v holds
      by_cases none : report.retryable = []
      · refine .inl ⟨[⟨report, []⟩], u, x, (bind_done run).trans ((bind_done (lift_run told)).trans ?_),
          .last covers, holds⟩
        rw [if_pos none]
        rfl
      · rcases ih (round + 1) report.retryable u x holds with
          ⟨rounds, y, z, others, more, holds⟩ | ⟨p, y, z, others, text, member, broken⟩
        · refine .inl ⟨⟨report, report.retryable⟩ :: rounds, y, z,
            (bind_done run).trans ((bind_done (lift_run told)).trans ?_), .more covers none more, holds⟩
          rw [if_neg none]
          exact bind_done others
        · refine .inr ⟨p, y, z, (bind_done run).trans ((bind_done (lift_run told)).trans ?_), text,
            covers ▸ report.retryable_sublist.subset member, broken⟩
          rw [if_neg none]
          exact bind_stopped others
    · exact .inr ⟨p, t, v, bind_stopped run, broken⟩

end

end Onboarder

end ContractRegistry
