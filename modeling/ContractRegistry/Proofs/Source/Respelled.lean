import ContractRegistry.Proofs.Source.Names

/-!
How a length is read when its words are written in another way.

The readers look at no more than two tokens at once, and what a word is written as is read as one atom,
whatever stands behind it. So the grouping of the new tokens is the old grouping, with the atoms in the
places of the words. A parenthesis that closes what is around ends the reading as the end of the tokens
does, as long as there was one to be read.
-/
namespace ContractRegistry.Source.LengthExpr

/-- A grouping with expressions in the places of its constants. -/
def withConstants (f : String → LengthExpr) : LengthExpr → LengthExpr
  | .literal text => .literal text
  | .constant name => f name
  | .binary op left right => .binary op (left.withConstants f) (right.withConstants f)

theorem withConstants_constant (e : LengthExpr) : e.withConstants .constant = e := by
  induction e with
  | literal text => rfl
  | constant name => rfl
  | binary op left right ihl ihr => rw [withConstants, ihl, ihr]

theorem eval?_withConstants (value? : String → Option Nat) (f : String → LengthExpr) (e : LengthExpr) :
    (e.withConstants f).eval? value? = e.eval? fun name => (f name).eval? value? := by
  induction e with
  | literal text => rfl
  | constant name => rfl
  | binary op left right ihl ihr => simp only [withConstants, eval?, ihl, ihr]

def Begins (c : Char) (ts : List Token) : Prop :=
  ∃ line rest, ts = ⟨.punct c, line⟩ :: rest

theorem sumFrom_sign {c : Char} {op : LengthOp} (sign : c = '+' ∧ op = .add ∨ c = '-' ∧ op = .sub)
    (steps line : Nat) (left : LengthExpr) (ts : List Token) :
    sumFrom (steps + 1) left (⟨.punct c, line⟩ :: ts) =
      (product steps ts).bind fun r => sumFrom steps (.binary op left r.1) r.2 := by
  rcases sign with ⟨rfl, rfl⟩ | ⟨rfl, rfl⟩ <;> rfl

theorem sumFrom_ends {ts : List Token} (plus : ¬ Begins '+' ts) (minus : ¬ Begins '-' ts) (steps : Nat)
    (left : LengthExpr) : sumFrom (steps + 1) left ts = some (left, ts) := by
  unfold sumFrom
  split
  · contradiction
  · exact absurd ⟨_, _, rfl⟩ plus
  · exact absurd ⟨_, _, rfl⟩ minus
  · rfl

theorem productFrom_stars (steps first second : Nat) (left : LengthExpr) (ts : List Token) :
    productFrom (steps + 1) left (⟨.punct '*', first⟩ :: ⟨.punct '*', second⟩ :: ts) =
      (atom steps ts).bind fun r => productFrom steps (.binary .pow left r.1) r.2 := rfl

theorem productFrom_star {ts : List Token} (one : ¬ Begins '*' ts) (steps line : Nat) (left : LengthExpr) :
    productFrom (steps + 1) left (⟨.punct '*', line⟩ :: ts) =
      (atom steps ts).bind fun r => productFrom steps (.binary .mul left r.1) r.2 := by
  rw [productFrom]
  · rfl
  · intro second rest same
    exact one ⟨second, rest, same⟩

theorem productFrom_slash (steps line : Nat) (left : LengthExpr) (ts : List Token) :
    productFrom (steps + 1) left (⟨.punct '/', line⟩ :: ts) =
      (atom steps ts).bind fun r => productFrom steps (.binary .div left r.1) r.2 := rfl

theorem productFrom_ends {ts : List Token} (star : ¬ Begins '*' ts) (slash : ¬ Begins '/' ts) (steps : Nat)
    (left : LengthExpr) : productFrom (steps + 1) left ts = some (left, ts) := by
  unfold productFrom
  split
  · contradiction
  · exact absurd ⟨_, _, rfl⟩ star
  · exact absurd ⟨_, _, rfl⟩ star
  · exact absurd ⟨_, _, rfl⟩ slash
  · rfl

def close (r : LengthExpr × List Token) : Read :=
  match r.2 with
  | ⟨.punct ')', _⟩ :: ts => some (r.1, ts)
  | _ => none

theorem close_open {r : LengthExpr × List Token} (opened : ¬ Begins ')' r.2) : close r = none := by
  unfold close
  split
  · rename_i same
    exact absurd ⟨_, _, same⟩ opened
  · rfl

theorem atom_group (steps line : Nat) (ts : List Token) :
    atom (steps + 1) (⟨.punct '(', line⟩ :: ts) = (LengthExpr.sum steps ts).bind close := rfl

theorem atom_punct {c : Char} (apart : c ≠ '(') (steps line : Nat) (ts : List Token) :
    atom steps (⟨.punct c, line⟩ :: ts) = none := by
  cases steps with
  | zero => rfl
  | succ steps =>
    unfold atom
    split
    · rfl
    · rename_i same
      cases same
    · rename_i same
      cases same
    · rename_i same
      cases same
      contradiction
    · rfl

def Within (n : Nat) (r : Read) : Prop :=
  ∀ e rest, r = some (e, rest) → rest.length ≤ n

theorem within_some {n : Nat} {e : LengthExpr} {rest : List Token} (short : rest.length ≤ n) :
    Within n (some (e, rest)) := by
  intro e' rest' same
  cases same
  exact short

theorem within_bind {m n : Nat} {x : Read} {more : LengthExpr → List Token → Read}
    (whole : LengthExpr → LengthExpr) (first : Within m x)
    (behind : ∀ e rest, Within rest.length (more e rest)) (less : m ≤ n) :
    Within n (x.bind fun r => more (whole r.1) r.2) := by
  intro e rest same
  obtain ⟨⟨operand, between⟩, read, run⟩ := Option.bind_eq_some_iff.mp same
  have short := first operand between read
  have shorter := behind (whole operand) between e rest run
  omega

structure Shortens (steps : Nat) : Prop where
  sum : ∀ ts, Within ts.length (LengthExpr.sum steps ts)
  sumFrom : ∀ left ts, Within ts.length (LengthExpr.sumFrom steps left ts)
  product : ∀ ts, Within ts.length (LengthExpr.product steps ts)
  productFrom : ∀ left ts, Within ts.length (LengthExpr.productFrom steps left ts)
  atom : ∀ ts, Within ts.length (LengthExpr.atom steps ts)

theorem sign_cases (ts : List Token) :
    (∃ c op line rest, (c = '+' ∧ op = LengthOp.add ∨ c = '-' ∧ op = LengthOp.sub) ∧
      ts = ⟨.punct c, line⟩ :: rest) ∨ (¬ Begins '+' ts ∧ ¬ Begins '-' ts) := by
  by_cases plus : Begins '+' ts
  · obtain ⟨line, rest, same⟩ := plus
    exact Or.inl ⟨'+', .add, line, rest, Or.inl ⟨rfl, rfl⟩, same⟩
  · by_cases minus : Begins '-' ts
    · obtain ⟨line, rest, same⟩ := minus
      exact Or.inl ⟨'-', .sub, line, rest, Or.inr ⟨rfl, rfl⟩, same⟩
    · exact Or.inr ⟨plus, minus⟩

theorem factor_cases (ts : List Token) :
    (∃ first second rest, ts = ⟨.punct '*', first⟩ :: ⟨.punct '*', second⟩ :: rest) ∨
    (∃ line rest, ¬ Begins '*' rest ∧ ts = ⟨.punct '*', line⟩ :: rest) ∨
    (∃ line rest, ts = ⟨.punct '/', line⟩ :: rest) ∨ (¬ Begins '*' ts ∧ ¬ Begins '/' ts) := by
  by_cases star : Begins '*' ts
  · obtain ⟨line, rest, rfl⟩ := star
    by_cases second : Begins '*' rest
    · obtain ⟨line', rest, rfl⟩ := second
      exact Or.inl ⟨line, line', rest, rfl⟩
    · exact Or.inr (Or.inl ⟨line, rest, second, rfl⟩)
  · by_cases slash : Begins '/' ts
    · exact Or.inr (Or.inr (Or.inl slash))
    · exact Or.inr (Or.inr (Or.inr ⟨star, slash⟩))

theorem sumFrom_shortens {steps : Nat} (ih : Shortens steps) (left : LengthExpr) (ts : List Token) :
    Within ts.length (LengthExpr.sumFrom (steps + 1) left ts) := by
  rcases sign_cases ts with ⟨c, op, line, rest, sign, rfl⟩ | ⟨plus, minus⟩
  · rw [sumFrom_sign sign]
    exact within_bind (.binary op left) (ih.product rest) ih.sumFrom (Nat.le_succ _)
  · rw [sumFrom_ends plus minus]
    exact within_some (Nat.le_refl _)

theorem productFrom_shortens {steps : Nat} (ih : Shortens steps) (left : LengthExpr) (ts : List Token) :
    Within ts.length (LengthExpr.productFrom (steps + 1) left ts) := by
  rcases factor_cases ts with ⟨first, second, rest, rfl⟩ | ⟨line, rest, one, rfl⟩ | ⟨line, rest, rfl⟩ |
    ⟨star, slash⟩
  · rw [productFrom_stars]
    exact within_bind (.binary .pow left) (ih.atom rest) ih.productFrom (Nat.le_add_right _ 2)
  · rw [productFrom_star one]
    exact within_bind (.binary .mul left) (ih.atom rest) ih.productFrom (Nat.le_succ _)
  · rw [productFrom_slash]
    exact within_bind (.binary .div left) (ih.atom rest) ih.productFrom (Nat.le_succ _)
  · rw [productFrom_ends star slash]
    exact within_some (Nat.le_refl _)

theorem atom_shortens {steps : Nat} (ih : Shortens steps) (ts : List Token) :
    Within ts.length (LengthExpr.atom (steps + 1) ts) := by
  intro e rest run
  unfold LengthExpr.atom at run
  split at run
  · contradiction
  · cases run
    exact Nat.le_succ _
  · cases run
    exact Nat.le_succ _
  · rename_i same
    cases same
    obtain ⟨⟨inner, between⟩, read, run⟩ := Option.bind_eq_some_iff.mp run
    have short := ih.sum _ inner between read
    dsimp only at run
    split at run
    · cases run
      simp only [List.length_cons] at short ⊢
      omega
    · contradiction
  · contradiction

theorem shortens (steps : Nat) : Shortens steps := by
  -- All five readers at once, since each of them calls the next one.
  induction steps with
  | zero => constructor <;> intros <;> intro _ _ same <;> contradiction
  | succ steps ih =>
    constructor
    · intro ts
      exact within_bind id (ih.product ts) ih.sumFrom (Nat.le_refl _)
    · exact sumFrom_shortens ih
    · intro ts
      exact within_bind id (ih.atom ts) ih.productFrom (Nat.le_refl _)
    · exact productFrom_shortens ih
    · exact atom_shortens ih

/-- What tokens are written as, and what the words among them stand for: one atom, wherever they stand.
All other tokens are kept. -/
structure Respelling (spell : Token → List Token) (f : String → LengthExpr) : Prop where
  plain : ∀ t, t.word? = none → spell t = [t]
  word : ∀ name line more steps, 3 * (spell ⟨.word name, line⟩ ++ more).length < steps →
    atom steps (spell ⟨.word name, line⟩ ++ more) = some (f name, more)

def respelled (spell : Token → List Token) (tail ts : List Token) : List Token :=
  ts.flatMap spell ++ tail

/-- What may stand behind: nothing, or a parenthesis that closes what is around. -/
def Closes (tail : List Token) : Prop :=
  tail = [] ∨ Begins ')' tail

section

variable {spell : Token → List Token} {f : String → LengthExpr} {tail : List Token}

theorem respelled_plain (spelling : Respelling spell f) {t : Token} (plain : t.word? = none)
    (ts : List Token) : respelled spell tail (t :: ts) = t :: respelled spell tail ts := by
  simp [respelled, spelling.plain t plain]

theorem respelled_word (name : String) (line : Nat) (ts : List Token) :
    respelled spell tail (⟨.word name, line⟩ :: ts) = spell ⟨.word name, line⟩ ++ respelled spell tail ts := by
  simp [respelled]

/-- No mark but a parenthesis comes in front of the new tokens that was not in front of the old ones. -/
theorem not_begins_respelled (spelling : Respelling spell f) (closes : Closes tail) {c : Char} (opened : c ≠ '(')
    (closed : c ≠ ')' ∨ tail = []) {ts : List Token} (apart : ¬ Begins c ts) :
    ¬ Begins c (respelled spell tail ts) := by
  rintro ⟨line, rest, same⟩
  apply apart
  cases ts with
  | nil =>
    have behind : tail = ⟨.punct c, line⟩ :: rest := same
    rcases closes with none_behind | ⟨line', rest', closes⟩
    · rw [none_behind] at behind
      contradiction
    · rw [closes] at behind closed
      cases behind
      simp at closed
  | cons t ts =>
    obtain ⟨kind, line'⟩ := t
    cases kind with
    | word name =>
      have read := spelling.word name line' (respelled spell tail ts) _ (Nat.lt_succ_self _)
      rw [respelled_word] at same
      rw [same, atom_punct opened] at read
      contradiction
    | _ =>
      rw [respelled_plain spelling rfl] at same
      exact ⟨_, _, by rw [(List.cons.inj same).1]⟩

def reread (spell : Token → List Token) (f : String → LengthExpr) (tail : List Token)
    (r : LengthExpr × List Token) : LengthExpr × List Token :=
  (r.1.withConstants f, respelled spell tail r.2)

theorem reread_bind {n n' : Nat} {x x' : Read} {more more' : LengthExpr → List Token → Read}
    (whole whole' : LengthExpr → LengthExpr)
    (respells : ∀ e, whole' (e.withConstants f) = (whole e).withConstants f)
    (free : tail = [] ∨ (x.bind fun r => more (whole r.1) r.2).isSome) (within : Within n x)
    (within' : Within n' x') (first : tail = [] ∨ x.isSome → x' = x.map (reread spell f tail))
    (behind : ∀ e rest, rest.length ≤ n → (respelled spell tail rest).length ≤ n' →
      tail = [] ∨ (more (whole e) rest).isSome →
        more' ((whole e).withConstants f) (respelled spell tail rest) =
          (more (whole e) rest).map (reread spell f tail)) :
    (x'.bind fun r => more' (whole' r.1) r.2) =
      (x.bind fun r => more (whole r.1) r.2).map (reread spell f tail) := by
  cases read : x with
  | none =>
    rw [read] at free first
    rw [first (free.imp_right fun some => some)]
    rfl
  | some r =>
    obtain ⟨e, rest⟩ := r
    rw [read] at free first
    have same := first (Or.inr rfl)
    have onward := behind e rest (within e rest read) (within' _ _ same) free
    rw [← respells] at onward
    rw [same]
    exact onward

/-- A reader with enough steps reads the new tokens as it reads the old ones, if nothing stands behind or
if there is something to be read. The margin is the number of readers that call each other before one of
them takes a token. -/
def Rereads (spell : Token → List Token) (f : String → LengthExpr) (tail : List Token) (margin steps : Nat)
    (reader reader' : Nat → List Token → Read) : Prop :=
  ∀ ts steps', 3 * ts.length + margin ≤ steps → 3 * (respelled spell tail ts).length + margin ≤ steps' →
    tail = [] ∨ (reader steps ts).isSome →
      reader' steps' (respelled spell tail ts) = (reader steps ts).map (reread spell f tail)

end

structure RereadsAll (spell : Token → List Token) (f : String → LengthExpr) (tail : List Token)
    (steps : Nat) : Prop where
  sum : Rereads spell f tail 3 steps LengthExpr.sum LengthExpr.sum
  sumFrom : ∀ left, Rereads spell f tail 1 steps (LengthExpr.sumFrom · left)
    (LengthExpr.sumFrom · (left.withConstants f))
  product : Rereads spell f tail 2 steps LengthExpr.product LengthExpr.product
  productFrom : ∀ left, Rereads spell f tail 1 steps (LengthExpr.productFrom · left)
    (LengthExpr.productFrom · (left.withConstants f))
  atom : Rereads spell f tail 1 steps LengthExpr.atom LengthExpr.atom

section

variable {spell : Token → List Token} {f : String → LengthExpr} {tail : List Token} {steps : Nat}

theorem sum_rereads (ih : RereadsAll spell f tail steps) :
    Rereads spell f tail 3 (steps + 1) LengthExpr.sum LengthExpr.sum := by
  intro ts steps' enough enough' free
  obtain ⟨steps', rfl⟩ : ∃ k, steps' = k + 1 := ⟨steps' - 1, by omega⟩
  apply reread_bind id id (fun _ => rfl) free ((shortens steps).product ts) ((shortens steps').product _)
    (ih.product ts steps' (by omega) (by omega))
  intro e rest short short' onward
  exact ih.sumFrom e rest steps' (by omega) (by omega) onward

theorem product_rereads (ih : RereadsAll spell f tail steps) :
    Rereads spell f tail 2 (steps + 1) LengthExpr.product LengthExpr.product := by
  intro ts steps' enough enough' free
  obtain ⟨steps', rfl⟩ : ∃ k, steps' = k + 1 := ⟨steps' - 1, by omega⟩
  apply reread_bind id id (fun _ => rfl) free ((shortens steps).atom ts) ((shortens steps').atom _)
    (ih.atom ts steps' (by omega) (by omega))
  intro e rest short short' onward
  exact ih.productFrom e rest steps' (by omega) (by omega) onward

theorem sumFrom_rereads (spelling : Respelling spell f) (closes : Closes tail)
    (ih : RereadsAll spell f tail steps) (left : LengthExpr) :
    Rereads spell f tail 1 (steps + 1) (LengthExpr.sumFrom · left)
      (LengthExpr.sumFrom · (left.withConstants f)) := by
  intro ts steps' enough enough' free
  obtain ⟨steps', rfl⟩ : ∃ k, steps' = k + 1 := ⟨steps' - 1, by omega⟩
  dsimp only at free ⊢
  rcases sign_cases ts with ⟨c, op, line, rest, sign, rfl⟩ | ⟨plus, minus⟩
  · rw [respelled_plain spelling rfl] at enough' ⊢
    rw [sumFrom_sign sign] at free ⊢
    rw [sumFrom_sign sign]
    simp only [List.length_cons] at enough enough'
    apply reread_bind (.binary op left) (.binary op (left.withConstants f)) (fun _ => rfl) free
      ((shortens steps).product rest) ((shortens steps').product _)
      (ih.product rest steps' (by omega) (by omega))
    intro e behind short short' onward
    exact ih.sumFrom _ behind steps' (by omega) (by omega) onward
  · rw [sumFrom_ends plus minus]
    have plus' := not_begins_respelled spelling closes (by decide) (Or.inl (by decide)) plus
    have minus' := not_begins_respelled spelling closes (by decide) (Or.inl (by decide)) minus
    rw [sumFrom_ends plus' minus']
    rfl

theorem operand_rereads (ih : RereadsAll spell f tail steps) (op : LengthOp) (left : LengthExpr)
    {rest : List Token} {steps' : Nat} (enough : 3 * rest.length + 1 ≤ steps)
    (enough' : 3 * (respelled spell tail rest).length + 1 ≤ steps')
    (free : tail = [] ∨ ((LengthExpr.atom steps rest).bind fun r =>
      LengthExpr.productFrom steps (.binary op left r.1) r.2).isSome) :
    ((LengthExpr.atom steps' (respelled spell tail rest)).bind fun r =>
        LengthExpr.productFrom steps' (.binary op (left.withConstants f) r.1) r.2) =
      ((LengthExpr.atom steps rest).bind fun r =>
        LengthExpr.productFrom steps (.binary op left r.1) r.2).map (reread spell f tail) := by
  apply reread_bind (.binary op left) (.binary op (left.withConstants f)) (fun _ => rfl) free
    ((shortens steps).atom rest) ((shortens steps').atom _) (ih.atom rest steps' (by omega) (by omega))
  intro e behind short short' onward
  exact ih.productFrom _ behind steps' (by omega) (by omega) onward

theorem productFrom_rereads (spelling : Respelling spell f) (closes : Closes tail)
    (ih : RereadsAll spell f tail steps) (left : LengthExpr) :
    Rereads spell f tail 1 (steps + 1) (LengthExpr.productFrom · left)
      (LengthExpr.productFrom · (left.withConstants f)) := by
  intro ts steps' enough enough' free
  obtain ⟨steps', rfl⟩ : ∃ k, steps' = k + 1 := ⟨steps' - 1, by omega⟩
  dsimp only at free ⊢
  rcases factor_cases ts with ⟨first, second, rest, rfl⟩ | ⟨line, rest, one, rfl⟩ | ⟨line, rest, rfl⟩ |
    ⟨star, slash⟩
  · rw [respelled_plain spelling rfl, respelled_plain spelling rfl] at enough' ⊢
    rw [productFrom_stars] at free ⊢
    rw [productFrom_stars]
    simp only [List.length_cons] at enough enough'
    exact operand_rereads ih .pow left (by omega) (by omega) free
  · have one' := not_begins_respelled spelling closes (by decide) (Or.inl (by decide)) one
    rw [respelled_plain spelling rfl] at enough' ⊢
    rw [productFrom_star one] at free ⊢
    rw [productFrom_star one']
    simp only [List.length_cons] at enough enough'
    exact operand_rereads ih .mul left (by omega) (by omega) free
  · rw [respelled_plain spelling rfl] at enough' ⊢
    rw [productFrom_slash] at free ⊢
    rw [productFrom_slash]
    simp only [List.length_cons] at enough enough'
    exact operand_rereads ih .div left (by omega) (by omega) free
  · rw [productFrom_ends star slash]
    have star' := not_begins_respelled spelling closes (by decide) (Or.inl (by decide)) star
    have slash' := not_begins_respelled spelling closes (by decide) (Or.inl (by decide)) slash
    rw [productFrom_ends star' slash']
    rfl

/-- What stands in parentheses is closed in both spellings or in none. Where it is not closed at the end of
the tokens, something behind them could close it. -/
theorem close_rereads (spelling : Respelling spell f) (closes : Closes tail)
    {r : LengthExpr × List Token} (free : tail = [] ∨ (close r).isSome) :
    close (reread spell f tail r) = (close r).map (reread spell f tail) := by
  obtain ⟨e, rest⟩ := r
  by_cases closed : Begins ')' rest
  · obtain ⟨line, more, rfl⟩ := closed
    have kept : respelled spell tail (⟨.punct ')', line⟩ :: more) =
        ⟨.punct ')', line⟩ :: respelled spell tail more := respelled_plain spelling rfl more
    simp only [reread, kept]
    rfl
  · have left_open : close (e, rest) = none := close_open closed
    rw [left_open] at free ⊢
    have none_behind : tail = [] := free.resolve_right (by simp)
    exact close_open (not_begins_respelled spelling closes (by decide) (Or.inr none_behind) closed)

theorem atom_rereads (spelling : Respelling spell f) (closes : Closes tail)
    (ih : RereadsAll spell f tail steps) :
    Rereads spell f tail 1 (steps + 1) LengthExpr.atom LengthExpr.atom := by
  intro ts steps' enough enough' free
  obtain ⟨steps', rfl⟩ : ∃ k, steps' = k + 1 := ⟨steps' - 1, by omega⟩
  cases ts with
  | nil =>
    obtain rfl : tail = [] := free.resolve_right (by simp [LengthExpr.atom])
    rfl
  | cons t ts =>
    obtain ⟨kind, line⟩ := t
    cases kind with
    | word name =>
      rw [respelled_word] at enough' ⊢
      exact spelling.word name line _ _ (by omega)
    | punct c =>
      rw [respelled_plain spelling rfl] at enough' ⊢
      by_cases opens : c = '('
      · subst opens
        rw [atom_group] at free ⊢
        rw [atom_group]
        simp only [List.length_cons] at enough enough'
        have inner := ih.sum ts steps' (by omega) (by omega)
        cases read : LengthExpr.sum steps ts with
        | none =>
          rw [read] at free inner
          rw [inner free]
          rfl
        | some r =>
          rw [read] at free inner
          rw [inner (Or.inr rfl)]
          exact close_rereads spelling closes free
      · rw [atom_punct opens, atom_punct opens]
        rfl
    | _ =>
      rw [respelled_plain spelling rfl]
      rfl

theorem rereadsAll (spelling : Respelling spell f) (closes : Closes tail) (steps : Nat) :
    RereadsAll spell f tail steps := by
  induction steps with
  | zero => constructor <;> intros <;> intro _ _ enough <;> omega
  | succ steps ih =>
    exact ⟨sum_rereads ih, sumFrom_rereads spelling closes ih, product_rereads ih,
      productFrom_rereads spelling closes ih, atom_rereads spelling closes ih⟩

theorem respelled_eq_nil (spelling : Respelling spell f) {ts : List Token} :
    respelled spell [] ts = [] ↔ ts = [] := by
  cases ts with
  | nil => exact Iff.intro (fun _ => rfl) (fun _ => rfl)
  | cons t ts =>
    apply iff_of_false _ (List.cons_ne_nil t ts)
    obtain ⟨kind, line⟩ := t
    cases kind with
    | word name =>
      intro none_left
      have read := spelling.word name line (respelled spell [] ts) _ (Nat.lt_succ_self _)
      rw [respelled_word] at none_left
      rw [none_left] at read
      contradiction
    | _ =>
      rw [respelled_plain spelling rfl]
      exact List.cons_ne_nil _ _

/-- The grouping of the new tokens is the grouping of the old ones with expressions for constants. -/
theorem ofTokens?_respelled (spelling : Respelling spell f) (ts : List Token) :
    ofTokens? (ts.flatMap spell) = (ofTokens? ts).map (withConstants f) := by
  have all : ts.flatMap spell = respelled spell [] ts := (List.append_nil _).symm
  have read := (rereadsAll spelling (Or.inl rfl) _).sum ts _ (Nat.le_refl _) (Nat.le_refl _) (Or.inl rfl)
  rw [all]
  unfold ofTokens?
  rw [read]
  cases LengthExpr.sum (3 * ts.length + 3) ts with
  | none => rfl
  | some r =>
    obtain ⟨e, rest⟩ := r
    simp only [Option.map_some, Option.bind_eq_bind, Option.bind_some, reread, respelled_eq_nil spelling]
    split <;> rfl

theorem respelling_same : Respelling (fun t => [t]) .constant where
  plain _ _ := rfl
  word name line more steps enough := by
    obtain ⟨steps, rfl⟩ : ∃ k, steps = k + 1 := ⟨steps - 1, by omega⟩
    rfl

/-- What is a length of its own is read up to the parenthesis that closes what is around. -/
theorem sum_closed {ts : List Token} {e : LengthExpr} (complete : ofTokens? ts = some e) (line : Nat)
    (more : List Token) {steps : Nat} (enough : 3 * (ts.length + more.length + 1) + 3 ≤ steps) :
    LengthExpr.sum steps (ts ++ ⟨.punct ')', line⟩ :: more) = some (e, ⟨.punct ')', line⟩ :: more) := by
  obtain ⟨⟨e', rest⟩, read, run⟩ := Option.bind_eq_some_iff.mp complete
  dsimp only at run
  split at run
  · rename_i all
    cases run
    subst all
    have same : respelled (fun t => [t]) (⟨.punct ')', line⟩ :: more) ts = ts ++ ⟨.punct ')', line⟩ :: more := by
      simp [respelled]
    have again := (rereadsAll respelling_same (Or.inr ⟨line, more, rfl⟩) _).sum ts steps (Nat.le_refl _)
      (by rw [same]; simp only [List.length_append, List.length_cons]; omega)
      (Or.inr (by rw [read]; rfl))
    rw [read, same] at again
    rw [again]
    simp [reread, respelled, withConstants_constant]
  · contradiction

end

def inParens (name : String) (init : List Token) (t : Token) : List Token :=
  if t.kind = .word name then ⟨.punct '(', t.line⟩ :: init ++ [⟨.punct ')', t.line⟩] else [t]

def replaced (name : String) (body : LengthExpr) (word : String) : LengthExpr :=
  if word = name then body else .constant word

theorem respelling_inParens (name : String) {init : List Token} {body : LengthExpr}
    (complete : ofTokens? init = some body) : Respelling (inParens name init) (replaced name body) where
  plain t plain := by
    have other : t.kind ≠ .word name := by
      intro same
      simp [Token.word?, same] at plain
    rw [inParens, if_neg other]
  word word line more steps enough := by
    obtain ⟨steps, rfl⟩ : ∃ k, steps = k + 1 := ⟨steps - 1, by omega⟩
    by_cases same : word = name
    · subst same
      simp only [inParens, if_true, replaced, List.cons_append, List.append_assoc, List.nil_append,
        List.length_cons, List.length_append] at enough ⊢
      rw [atom_group, sum_closed complete line more (by omega)]
      rfl
    · have other : (TokenKind.word word) ≠ .word name := fun eq => same (TokenKind.word.inj eq)
      rw [inParens, if_neg other, replaced, if_neg same]
      rfl

end ContractRegistry.Source.LengthExpr
