import ContractRegistry.Failure

/-!
How runs that stop at the first error are taken apart, one at a time or two side by side, and how runs
with states are.
-/
namespace ContractRegistry

namespace Failure

variable {ε ε' α : Type} {x : Except ε α}

@[simp]
theorem tell_ok (a : α) : tell (.ok a : Except ε α) = .ok a := rfl

@[simp]
theorem tell_error (e : ε) : tell (.error e : Except ε α) = .error (.told e) := rfl

@[simp]
theorem tell_eq_ok {a : α} : tell x = .ok a ↔ x = .ok a := by
  cases x <;> simp

theorem tell_bind {β : Type} {f : α → Except ε β} : tell (x >>= f) = tell x >>= fun a => tell (f a) := by
  cases x <;> rfl

theorem mapError_eq_ok {wider : ε → ε'} {a : α} : x.mapError wider = .ok a ↔ x = .ok a := by
  cases x with
  | ok b =>
    have kept : (Except.ok b : Except ε α).mapError wider = .ok b := rfl
    simp [kept]
  | error e =>
    have failed : (Except.error e : Except ε α).mapError wider = .error (wider e) := rfl
    simp [failed]

end Failure

theorem bind_eq_ok {ε α β : Type} {x : Except ε α} {f : α → Except ε β} {b : β} :
    (x >>= f) = .ok b ↔ ∃ a, x = .ok a ∧ f a = .ok b := by
  cases x <;> simp [bind, Except.bind]

theorem bind_of_eq_ok {ε α β : Type} {x : Except ε α} {f : α → Except ε β} {a : α}
    (ok : x = .ok a) : (x >>= f) = f a := by
  rw [ok]
  rfl

theorem bind_of_eq_error {ε α β : Type} {x : Except ε α} {f : α → Except ε β} {e : ε}
    (failed : x = .error e) : (x >>= f) = .error e := by
  rw [failed]
  rfl

theorem tell_bind_eq_ok {ε α β : Type} {x : Except ε α} {f : α → Except (Failure ε) β} {b : β} :
    (Failure.tell x >>= f) = .ok b ↔ ∃ a, x = .ok a ∧ f a = .ok b := by
  rw [bind_eq_ok]
  simp only [Failure.tell_eq_ok]

theorem ite_throw_bind_eq_ok {ε β : Type} {c : Prop} [Decidable c] {e : ε} {f : PUnit → Except ε β}
    {b : β} : (if c then throw e >>= f else f ⟨⟩) = .ok b ↔ ¬ c ∧ f ⟨⟩ = .ok b := by
  by_cases refused : c <;> simp [refused, throw, throwThe, MonadExceptOf.throw, bind, Except.bind]

theorem check_bind_eq_ok {ε β : Type} {x : Except ε Unit} {f : Unit → Except ε β} {b : β} :
    (x >>= f) = .ok b ↔ x = .ok () ∧ f () = .ok b := by
  cases x <;> simp [bind, Except.bind]

section
variable {ρ σ α β : Type}

theorem bind_state {x : StateM σ α} {f : α → StateM σ β} {w v : σ} {a : α} (first : x w = (a, v)) :
    (x >>= f) w = f a v :=
  congrArg (fun r : α × σ => f r.1 r.2) first

theorem bind_run {x : StateT ρ (StateM σ) α} {f : α → StateT ρ (StateM σ) β} {s t : ρ} {w v : σ} {a : α}
    (first : x s w = ((a, t), v)) : (x >>= f) s w = f a t v :=
  congrArg (fun r : (α × ρ) × σ => f r.1.1 r.1.2 r.2) first

section
variable {x : ExceptT Panic (StateT ρ (StateM σ)) α} {f : α → ExceptT Panic (StateT ρ (StateM σ)) β}
  {s t : ρ} {w v : σ}

theorem bind_done {a : α} (first : x s w = ((.ok a, t), v)) : (x >>= f) s w = f a t v :=
  bind_run (f := ExceptT.bindCont f) first

theorem bind_stopped {p : Panic} (first : x s w = ((.error p, t), v)) :
    (x >>= f) s w = ((.error p, t), v) :=
  bind_run (f := ExceptT.bindCont f) first

theorem bind_eq_done {b : β} :
    (x >>= f) s w = ((.ok b, t), v) ↔ ∃ a u z, x s w = ((.ok a, u), z) ∧ f a u z = ((.ok b, t), v) := by
  obtain ⟨⟨⟨result, u⟩, z⟩, first⟩ : ∃ r, x s w = r := ⟨_, rfl⟩
  cases result with
  | error p =>
    rw [bind_stopped first, first]
    constructor
    · rintro ⟨⟩
    · rintro ⟨_, _, _, ⟨⟩, _⟩
  | ok a =>
    rw [bind_done first, first]
    constructor
    · intro run
      exact ⟨a, u, z, rfl, run⟩
    · rintro ⟨_, _, _, ⟨⟩, run⟩
      exact run

theorem lift_run {y : StateT ρ (StateM σ) α} {a : α} (run : y s w = ((a, t), v)) :
    (ExceptT.lift y : ExceptT Panic (StateT ρ (StateM σ)) α) s w = ((.ok a, t), v) :=
  congrArg (fun r : (α × ρ) × σ => ((Except.ok r.1.1, r.1.2), r.2)) run

end

end

inductive Alike {ε α β : Type} (related : α → β → Prop) : Except ε α → Except ε β → Prop where
  | error (e : ε) : Alike related (.error e) (.error e)
  | ok {a : α} {b : β} (both : related a b) : Alike related (.ok a) (.ok b)

namespace Alike

variable {ε α β α' β' : Type} {related : α → β → Prop} {related' : α' → β' → Prop}

theorem bind {x : Except ε α} {y : Except ε β} {f : α → Except ε α'} {g : β → Except ε β'}
    (first : Alike related x y) (next : ∀ a b, related a b → Alike related' (f a) (g b)) :
    Alike related' (x >>= f) (y >>= g) := by
  cases first with
  | error e => exact .error e
  | ok both => exact next _ _ both

theorem tell {x : Except ε α} {y : Except ε β} (alike : Alike related x y) :
    Alike related (Failure.tell x) (Failure.tell y) := by
  cases alike with
  | error e => exact .error (Failure.told e)
  | ok both => exact .ok both

theorem mapError {ε' : Type} {x : Except ε α} {y : Except ε β} (wider : ε → ε')
    (alike : Alike related x y) : Alike related (x.mapError wider) (y.mapError wider) := by
  cases alike with
  | error e => exact .error (wider e)
  | ok both => exact .ok both

theorem of_eq {x y : Except ε α} (same : x = y) : Alike Eq x y := by
  subst same
  cases x with
  | error e => exact .error e
  | ok a => exact .ok rfl

theorem eq {x y : Except ε α} (alike : Alike Eq x y) : x = y := by
  cases alike with
  | error e => rfl
  | ok both => rw [both]

end Alike

end ContractRegistry
