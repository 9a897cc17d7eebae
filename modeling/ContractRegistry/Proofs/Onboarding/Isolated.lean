import ContractRegistry.Proofs.Onboarding.Batches

/-!
A rejected address leaves no trace on the others.

Two runs are set side by side. Where the metadata of an address is always the same, what becomes of an
address depends on the address and the store alone, and a rejection before the last stage leaves the
store as it was. So the addresses behind it meet the store that they would meet without it, and those in
a second batch meet the store that they would meet in the first.
-/
namespace ContractRegistry

open Onboarding
open Command (storeServices onStore)

section
variable {σ α β : Type}

/-- The result and the store do not depend on the world. -/
def Blind (x : StateT Store (StateM σ) α) : Prop :=
  ∀ s w v, (x s w).1 = (x s v).1

theorem blind_pure (a : α) : Blind (pure a : StateT Store (StateM σ) α) := by
  intro s w v
  rfl

theorem bind_result {x : StateT Store (StateM σ) α} {f : α → StateT Store (StateM σ) β} {s t : Store}
    {w : σ} {a : α} (first : (x s w).1 = (a, t)) : (x >>= f) s w = f a t (x s w).2 :=
  bind_run (Prod.ext first rfl)

theorem bind_result_done {x : ExceptT Panic (StateT Store (StateM σ)) α}
    {f : α → ExceptT Panic (StateT Store (StateM σ)) β} {s t : Store} {w : σ} {a : α}
    (first : (x s w).1 = (.ok a, t)) : (x >>= f) s w = f a t (x s w).2 :=
  bind_done (Prod.ext first rfl)

theorem blind_bind {x : StateT Store (StateM σ) α} {f : α → StateT Store (StateM σ) β}
    (first : Blind x) (next : ∀ a, Blind (f a)) : Blind (x >>= f) := by
  intro s w v
  have here : (x s v).1 = ((x s v).1.1, (x s v).1.2) := rfl
  rw [bind_result here, bind_result ((first s w v).trans here)]
  exact next _ _ _ _

theorem blind_bind_done {x : ExceptT Panic (StateT Store (StateM σ)) α}
    {f : α → ExceptT Panic (StateT Store (StateM σ)) β} (first : Blind x) (next : ∀ a, Blind (f a)) :
    Blind (x >>= f : ExceptT Panic (StateT Store (StateM σ)) β) := by
  refine blind_bind (f := ExceptT.bindCont f) first fun result => ?_
  cases result with
  | error p => exact blind_pure _
  | ok a => exact next a

theorem blind_lift {x : StateT Store (StateM σ) α} (blind : Blind x) :
    Blind (ExceptT.lift x : ExceptT Panic (StateT Store (StateM σ)) α) := by
  intro s w v
  exact congrArg (fun r : α × Store => (Except.ok r.1, r.2)) (blind s w v)

theorem blind_onStore (use : Store → StoreResult (α × Store)) :
    Blind (onStore use : StateT Store (StateM σ) _) := by
  intro s w v
  unfold onStore
  cases use s with
  | error e => rfl
  | ok given => rfl

variable {fetch : Address → StateM σ (Except FetchError Metadata)}

theorem outcomes_cons {text : String} {texts : List String} {s t u : Store} {w : σ} {o : Outcome}
    {os : List Outcome} (first : (onboard (storeServices fetch) text s w).1 = (.ok o, t))
    (others : (outcomes (storeServices fetch) texts t
      (onboard (storeServices fetch) text s w).2).1 = (.ok os, u)) :
    (outcomes (storeServices fetch) (text :: texts) s w).1 = (.ok (o :: os), u) := by
  rw [outcomes, bind_result_done first, bind_result_done others]
  rfl

theorem outcomes_cons_eq_ok {text : String} {texts : List String} {s u : Store} {w v : σ}
    {os : List Outcome} (run : outcomes (storeServices fetch) (text :: texts) s w = ((.ok os, u), v)) :
    ∃ o rest t x, onboard (storeServices fetch) text s w = ((.ok o, t), x) ∧
      Store.Settles s text o t ∧ outcomes (storeServices fetch) texts t x = ((.ok rest, u), v) ∧
      os = o :: rest := by
  obtain ⟨o, t, x, first, run⟩ := bind_eq_done.mp run
  obtain ⟨rest, u, v, others, same⟩ := bind_eq_done.mp run
  cases same
  obtain ⟨result, t', onboarded, settles, -⟩ := onboard_run fetch text s w
  cases first.symm.trans onboarded
  exact ⟨o, rest, t, _, first, settles o rfl, others, rfl⟩

theorem blind_eventIds (names : List String) : Blind (eventIds (storeServices fetch) names) := by
  induction names with
  | nil => exact blind_pure _
  | cons name names ih =>
    apply blind_bind (blind_onStore _)
    intro given
    cases given with
    | error e => exact blind_pure _
    | ok id =>
      apply blind_bind ih
      intro others
      cases others with
      | error e => exact blind_pure _
      | ok ids => exact blind_pure _

theorem blind_persist (address : Address) (metadata : Metadata) (name : String) (layout : Layout) :
    Blind (persist (storeServices fetch) address metadata name layout) := by
  apply blind_bind (blind_eventIds _)
  intro events
  cases events with
  | error e => exact blind_pure _
  | ok ids => exact blind_onStore _

theorem blind_accept (address : Address) (metadata : Metadata) :
    Blind (accept (storeServices fetch) address metadata) := by
  unfold accept
  cases resolve metadata with
  | error reason => exact blind_pure _
  | ok found =>
    apply blind_bind (blind_persist _ _ _ _)
    intro stored
    cases stored with
    | error e => exact blind_pure _
    | ok id => exact blind_pure _

section
variable (steady : ∀ address w v, (fetch address w).1 = (fetch address v).1)
include steady

theorem blind_process (text : String) : Blind (process (storeServices fetch) text) := by
  unfold process
  cases Address.parse? text with
  | none => exact blind_pure _
  | some address =>
    apply blind_bind
    · intro s w v
      exact congrArg (fun answer => (answer, s)) (steady address w v)
    · intro answer
      cases answer with
      | error e => exact blind_pure _
      | ok metadata => exact blind_accept _ _

theorem blind_onboard (text : String) : Blind (onboard (storeServices fetch) text) := by
  apply blind_bind_done (blind_lift (blind_process steady text))
  intro result
  cases result with
  | error e =>
    cases e with
    | told reason => exact blind_pure _
    | panic p => exact blind_pure _
  | ok kept => exact blind_pure _

theorem blind_outcomes (texts : List String) : Blind (outcomes (storeServices fetch) texts) := by
  induction texts with
  | nil => exact blind_pure _
  | cons text texts ih =>
    apply blind_bind_done (blind_onboard steady text)
    intro first
    apply blind_bind_done ih
    intro rest
    exact blind_pure _

theorem outcomes_without {texts : List String} {os : List Outcome} {s t : Store} {w x : σ}
    (run : outcomes (storeServices fetch) texts s w = ((.ok os, t), x)) {i : Nat} {text : String}
    {reason : Rejection} (rejected : os[i]? = some (.rejected text reason))
    (early : reason.stage ≠ .persisting) (v : σ) :
    (outcomes (storeServices fetch) (texts.eraseIdx i) s v).1 = (.ok (os.eraseIdx i), t) := by
  induction texts generalizing os i s w v with
  | nil =>
    cases run
    simp at rejected
  | cons first texts ih =>
    obtain ⟨o, rest, mid, y, onboarded, settles, others, rfl⟩ := outcomes_cons_eq_ok run
    cases i with
    | zero =>
      -- The rejection left the store of the beginning to the others.
      have same : mid = s := by
        obtain rfl := Option.some.inj rejected
        cases settles with
        | rejected named unchanged => exact unchanged early
      subst same
      exact (blind_outcomes steady texts mid v y).trans (congrArg Prod.fst others)
    | succ i =>
      have again := (blind_onboard steady first s v w).trans (congrArg Prod.fst onboarded)
      have behind : rest[i]? = some (.rejected text reason) := rejected
      exact outcomes_cons again (ih others behind _)

end

end

theorem outcomes_append {m : Type → Type} [Monad m] [LawfulMonad m] (services : Services m)
    (first second : List String) :
    outcomes services (first ++ second) = (do
      let os ← outcomes services first
      let more ← outcomes services second
      pure (os ++ more)) := by
  induction first with
  | nil => simp [outcomes]
  | cons text first ih => simp [outcomes, ih]

theorem acceptedIds_eraseIdx {os : List Outcome} {i : Nat} {text : String} {reason : Rejection}
    (rejected : os[i]? = some (.rejected text reason)) :
    BatchReport.acceptedIds (os.eraseIdx i) = BatchReport.acceptedIds os := by
  induction os generalizing i with
  | nil => simp at rejected
  | cons o os ih =>
    cases i with
    | zero =>
      obtain rfl := Option.some.inj rejected
      rfl
    | succ i =>
      have others := ih rejected
      cases o with
      | accepted address id name => exact congrArg (List.cons id) others
      | rejected address cause => exact others

namespace Outside
variable {α : Type} (outside : Outside α) (key : Option String)

/-- The metadata of an address does not depend on what was asked before. -/
def Steady : Prop :=
  ∀ address earlier later, outside.metadata earlier address = outside.metadata later address

def handedOn (contacts : List Contact) : List (List Nat) :=
  contacts.filterMap fun
    | .fetched _ => none
    | .launched ids => some ids

theorem handedOn_batch (contacts : List Contact) (texts : List String) (report : BatchReport α) :
    handedOn (contacts ++ outside.contactsFor texts (some report)) = handedOn contacts ++
      handedOn (outside.launches (BatchReport.acceptedIds report.outcomes)) := by
  have fetches : handedOn ((texts.filterMap Address.parse?).map .fetched) = [] := by
    simp [handedOn]
  simp only [handedOn, contactsFor, List.filterMap_append] at fetches ⊢
  rw [fetches, List.nil_append]

/-- A batch with a report was admitted, and its texts have the outcomes that are reported. -/
theorem batch_reported {credential : Option String} {texts : List String} {s t : Store}
    {earlier after : List Contact} {report : BatchReport α}
    (run : (outside.onboarder key).batch credential texts s earlier = ((.ok (some report), t), after)) :
    (outside.onboarder key).admits credential = true ∧
      (∃ x, outcomes (storeServices outside.fetch) texts s earlier = ((.ok report.outcomes, t), x)) ∧
      after = earlier ++ outside.contactsFor texts (some report) := by
  cases admitted : (outside.onboarder key).admits credential with
  | false =>
    rw [outside.batch_refused key admitted] at run
    cases run
  | true =>
    rcases outcomes_run outside.fetch texts s earlier with ⟨os, u, done, -⟩ | ⟨p, u, v, stopped, -⟩
    · obtain ⟨backfill, reported⟩ := outside.batch_of_outcomes key admitted (congrArg Prod.fst done)
      rw [reported] at run
      cases run
      exact ⟨rfl, ⟨_, done⟩, rfl⟩
    · cases (outside.batch_of_panic key admitted stopped).symm.trans run

theorem batch_without (steady : outside.Steady) {credential : Option String} {texts : List String}
    {s t : Store} {earlier after : List Contact} {report : BatchReport α}
    (run : (outside.onboarder key).batch credential texts s earlier = ((.ok (some report), t), after))
    {i : Nat} {text : String} {reason : Rejection}
    (rejected : report.outcomes[i]? = some (.rejected text reason))
    (early : reason.stage ≠ .persisting) :
    ∃ fewer after', (outside.onboarder key).batch credential (texts.eraseIdx i) s earlier =
        ((.ok (some fewer), t), after') ∧
      fewer.outcomes = report.outcomes.eraseIdx i ∧ handedOn after' = handedOn after := by
  obtain ⟨admitted, ⟨_, done⟩, rfl⟩ := outside.batch_reported key run
  have answers : ∀ address w v, (outside.fetch address w).1 = (outside.fetch address v).1 := steady
  have without := outcomes_without answers done rejected early earlier
  obtain ⟨backfill, reported⟩ := outside.batch_of_outcomes key admitted without
  refine ⟨_, _, reported, rfl, ?_⟩
  rw [handedOn_batch, handedOn_batch, acceptedIds_eraseIdx rejected]

theorem batch_cut (steady : outside.Steady) {credential : Option String} {first second : List String}
    {s t : Store} {earlier after : List Contact} {report : BatchReport α}
    (run : (outside.onboarder key).batch credential (first ++ second) s earlier =
      ((.ok (some report), t), after)) :
    ∃ one other after', (outside.onboarder key).batches [(credential, first), (credential, second)] s
        earlier = ((.ok [some one, some other], t), after') ∧
      one.outcomes ++ other.outcomes = report.outcomes := by
  obtain ⟨admitted, ⟨_, done⟩, rfl⟩ := outside.batch_reported key run
  rw [outcomes_append] at done
  obtain ⟨os, mid, x, head, done⟩ := bind_eq_done.mp done
  obtain ⟨more, last, y, tail, same⟩ := bind_eq_done.mp done
  obtain ⟨⟨joined, rfl⟩, -⟩ := Prod.mk.inj same |>.imp_left Prod.mk.inj
  obtain ⟨backfill, one⟩ := outside.batch_of_outcomes key admitted (congrArg Prod.fst head)
  -- The second batch meets the store that the texts of the first left, in another world.
  have answers : ∀ address w v, (outside.fetch address w).1 = (outside.fetch address v).1 := steady
  have again := (blind_outcomes answers second mid
    (earlier ++ outside.contactsFor first (some ⟨os, backfill⟩)) x).trans (congrArg Prod.fst tail)
  obtain ⟨backfill', other⟩ := outside.batch_of_outcomes key admitted again
  exact ⟨_, _, _, (bind_done one).trans (bind_done (bind_done other)), Except.ok.inj joined⟩

theorem batch_panicked {credential : Option String} {texts : List String} {s t : Store}
    {earlier after : List Contact} {p : Panic}
    (run : (outside.onboarder key).batch credential texts s earlier = ((.error p, t), after)) :
    (outside.onboarder key).admits credential = true ∧
      outcomes (storeServices outside.fetch) texts s earlier = ((.error p, t), after) := by
  cases admitted : (outside.onboarder key).admits credential with
  | false =>
    rw [outside.batch_refused key admitted] at run
    cases run
  | true =>
    rcases outcomes_run outside.fetch texts s earlier with ⟨os, u, done, -⟩ | ⟨p', u, v, stopped, -⟩
    · obtain ⟨backfill, reported⟩ := outside.batch_of_outcomes key admitted (congrArg Prod.fst done)
      rw [reported] at run
      cases run
    · cases (outside.batch_of_panic key admitted stopped).symm.trans run
      exact ⟨rfl, stopped⟩

/-- What panics in a batch panics in the first of its parts or in the second. -/
theorem batch_cut_panic (steady : outside.Steady) {credential : Option String} {first second : List String}
    {s t : Store} {earlier after : List Contact} {p : Panic}
    (run : (outside.onboarder key).batch credential (first ++ second) s earlier =
      ((.error p, t), after)) :
    ∃ after', (outside.onboarder key).batches [(credential, first), (credential, second)] s earlier =
      ((.error p, t), after') := by
  obtain ⟨admitted, stopped⟩ := outside.batch_panicked key run
  rw [outcomes_append] at stopped
  obtain ⟨⟨⟨result, mid⟩, x⟩, head⟩ :
      ∃ r, outcomes (storeServices outside.fetch) first s earlier = r := ⟨_, rfl⟩
  cases result with
  | error p' =>
    cases (bind_stopped head).symm.trans stopped
    exact ⟨_, bind_stopped (outside.batch_of_panic key admitted head)⟩
  | ok os =>
    obtain ⟨backfill, one⟩ := outside.batch_of_outcomes key admitted (congrArg Prod.fst head)
    have answers : ∀ address w v, (outside.fetch address w).1 = (outside.fetch address v).1 := steady
    have again := blind_outcomes answers second mid
      (earlier ++ outside.contactsFor first (some ⟨os, backfill⟩)) x
    obtain ⟨⟨⟨more, last⟩, y⟩, tail⟩ :
        ∃ r, outcomes (storeServices outside.fetch) second mid x = r := ⟨_, rfl⟩
    rw [bind_done head] at stopped
    cases more with
    | ok more => cases (bind_done tail).symm.trans stopped
    | error p' =>
      cases (bind_stopped tail).symm.trans stopped
      have met : (outcomes (storeServices outside.fetch) second mid _).1 = (.error p, t) :=
        again.trans (congrArg Prod.fst tail)
      have other := outside.batch_of_panic key admitted (Prod.ext met rfl)
      exact ⟨_, (bind_done one).trans (bind_stopped (bind_stopped other))⟩

/-- What a batch comes to when a rejected text is left out, and when it is cut in two. A panic that ends
the batch ends the two parts as well, with the same store. -/
structure Traceless (credential : Option String) (texts : List String) (s : Store)
    (earlier : List Contact) : Prop where
  without : ∀ report t after, (outside.onboarder key).batch credential texts s earlier =
      ((.ok (some report), t), after) →
    ∀ i text reason, report.outcomes[i]? = some (.rejected text reason) →
      reason.stage ≠ .persisting → ∃ fewer after',
        (outside.onboarder key).batch credential (texts.eraseIdx i) s earlier =
          ((.ok (some fewer), t), after') ∧
        fewer.outcomes = report.outcomes.eraseIdx i ∧ handedOn after' = handedOn after
  cut : ∀ report t after, (outside.onboarder key).batch credential texts s earlier =
      ((.ok (some report), t), after) →
    ∀ first second, texts = first ++ second → ∃ one other after',
      (outside.onboarder key).batches [(credential, first), (credential, second)] s earlier =
          ((.ok [some one, some other], t), after') ∧
        one.outcomes ++ other.outcomes = report.outcomes
  stopped : ∀ p t after, (outside.onboarder key).batch credential texts s earlier =
      ((.error p, t), after) →
    ∀ first second, texts = first ++ second → ∃ after',
      (outside.onboarder key).batches [(credential, first), (credential, second)] s earlier =
        ((.error p, t), after')

/-- A text that is rejected before the last stage can be left out, and a batch can be cut in two,
without any difference to the other texts and to the store. -/
theorem rejection_leaves_no_trace (steady : outside.Steady) (credential : Option String)
    (texts : List String) (s : Store) (earlier : List Contact) :
    outside.Traceless key credential texts s earlier where
  without report t after run i text reason rejected early :=
    outside.batch_without key steady run rejected early
  cut report t after run first second parts := by
    subst parts
    exact outside.batch_cut key steady run
  stopped p t after run first second parts := by
    subst parts
    exact outside.batch_cut_panic key steady run

def onePublished : Outside Unit where
  metadata _ address :=
    if address = 0xA1 then .ok ⟨"", .null, "contract C { uint256 x; }"⟩ else .error (.notFound address)
  launcher := some fun _ _ => ()

/-- An address that is not found, between a text that is no address and the contract. -/
def strayTexts : List String :=
  ["nowhere", "0x00000000000000000000000000000000000000b2", "0x00000000000000000000000000000000000000a1"]

theorem stray_texts_leave_no_trace :
    onePublished.Steady ∧ (∃ report t after,
      (onePublished.onboarder none).batch none strayTexts .empty [] = ((.ok (some report), t), after) ∧
      report.outcomes[1]? = some (.rejected "0x00000000000000000000000000000000000000b2"
        (.fetch (.notFound 0xB2))) ∧
      (Rejection.fetch (.notFound 0xB2)).stage ≠ .persisting ∧
      BatchReport.acceptedIds report.outcomes = [1]) ∧
    onePublished.Traceless none none strayTexts .empty [] := by
  have steady : onePublished.Steady := fun _ _ _ => rfl
  refine ⟨steady, ?_, onePublished.rejection_leaves_no_trace none steady none strayTexts .empty []⟩
  have told : ((onePublished.onboarder none).batch none strayTexts .empty []).1.1.map (fun report =>
      report.map fun report => (report.outcomes[1]?, BatchReport.acceptedIds report.outcomes)) =
        .ok (some (some (.rejected "0x00000000000000000000000000000000000000b2"
          (.fetch (.notFound 0xB2))), [1])) := by
    decide +kernel
  rcases onePublished.batch_admitted none rfl strayTexts .empty [] with
    ⟨os, backfill, t, run, -⟩ | ⟨p, t, asked, run, -⟩
  · rw [run] at told
    obtain ⟨rejected, ids⟩ := Prod.mk.inj (Option.some.inj (Except.ok.inj told))
    exact ⟨_, t, _, run, rejected, by decide, ids⟩
  · rw [run] at told
    cases told

end Outside

end ContractRegistry
