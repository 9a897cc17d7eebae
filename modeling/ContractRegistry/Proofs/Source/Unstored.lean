import ContractRegistry.Proofs.Source.Bracketed
import ContractRegistry.Proofs.Source.Walk

/-!
Members of contracts that are not stored.

Functions, modifiers, events, errors and what is used are skipped as wholes: where one is put between two
members, the source tells the same as without it, unless the search for the end of the head of a
function has gone on up to that place.
-/
namespace ContractRegistry.Source

inductive Body : List Token → Prop where
  | braces {first last : Token} {inside : List Token} (opens : first.kind = .punct '\x7b')
      (balanced : balancedInside '\x7b' '\x7d' (kinds inside) = true)
      (closes : last.kind = .punct '\x7d') : Body (first :: (inside ++ [last]))

inductive FunctionEnd : List Token → Prop where
  | semicolon {t : Token} (is : t.kind = .punct ';') : FunctionEnd [t]
  | body {ts : List Token} (is : Body ts) : FunctionEnd ts

/-- A member of a contract that has no part in its storage. -/
inductive Unstored : List Token → Prop where
  | function {first name : Token} {text : String} {head ending : List Token}
      (begins : first.kind = .word "function") (named : name.kind = .word text)
      (plain : balancedHead 0 ['\x7b', ';'] (kinds head) = true) (ends : FunctionEnd ending) :
      Unstored (first :: name :: (head ++ ending))
  | special {first : Token} {word : String} {head ending : List Token} (begins : first.kind = .word word)
      (known : word ∈ ["modifier", "constructor", "fallback", "receive"])
      (plain : balancedHead 0 ['\x7b', ';'] (kinds head) = true) (ends : FunctionEnd ending) :
      Unstored (first :: (head ++ ending))
  | unnamed {first opening : Token} {head body : List Token} (begins : first.kind = .word "function")
      (opens : opening.kind = .punct '(')
      (plain : balancedHead 0 headEnds (kinds (opening :: head)) = true) (ends : Body body) :
      Unstored (first :: (opening :: head ++ body))
  | statement {first last : Token} {word : String} {inside : List Token} (begins : first.kind = .word word)
      (known : word ∈ ["event", "error", "using"])
      (plain : balancedStatement 0 (kinds inside) = true) (ends : last.kind = .punct ';') :
      Unstored (first :: (inside ++ [last]))

section
variable {ts rest : List Token}

theorem skipHeadAndBody_body (is : Body ts) : skipHeadAndBody 0 (ts ++ rest) = .ok rest := by
  obtain ⟨opens, balanced, closes⟩ := is
  rw [List.cons_append, List.append_assoc, skipHeadAndBody, if_neg (by simp [opens]), if_pos opens]
  exact skipPastClosing_balanced (by decide) balanced closes

theorem skipHeadAndBody_end (is : FunctionEnd ts) : skipHeadAndBody 0 (ts ++ rest) = .ok rest := by
  cases is with
  | semicolon is => simp [skipHeadAndBody, is]
  | body is => exact skipHeadAndBody_body is

theorem skipHeadAndBody_function {without : List Char} {head ending : List Token}
    (brace : '\x7b' ∈ without) (semicolon : ';' ∈ without)
    (plain : balancedHead 0 without (kinds head) = true) (ends : FunctionEnd ending) :
    skipHeadAndBody 0 (head ++ ending ++ rest) = .ok rest := by
  rw [List.append_assoc, skipHeadAndBody_balanced brace semicolon plain, skipHeadAndBody_end ends]

theorem declaresVariable_body {opening : Token} {head body : List Token}
    (plain : balancedHead 0 headEnds (kinds (opening :: head)) = true) (ends : Body body) :
    declaresVariable (opening :: head ++ body ++ rest) = false := by
  obtain ⟨opens, -, -⟩ := ends
  obtain ⟨last, same⟩ := headEndsInName_balanced (by decide) (by decide) (by decide) plain none
  rw [declaresVariable, List.append_assoc, same]
  simp [headEndsInName, opens]

theorem takeMember_unstored (unstored : Unstored ts) (rest : List Token) :
    ∃ t us word, ts = t :: us ∧ t.kind = .word word ∧
      takeMember word (t :: (us ++ rest)) = .ok (.none, rest) := by
  cases unstored with
  | @function first name text head ending begins named plain ends =>
    have unopened : declaresVariable (name :: (head ++ ending ++ rest)) = false := by
      simp [declaresVariable, atPunct, named]
    have skipped : skipHeadAndBody 0 (name :: (head ++ ending ++ rest)) = .ok rest := by
      rw [skipHeadAndBody, named]
      exact skipHeadAndBody_function (by decide) (by decide) plain ends
    refine ⟨first, _, _, rfl, begins, ?_⟩
    simp only [List.cons_append, takeMember, List.drop_one, List.tail_cons, unopened, skipFunction]
    exact bind_of_eq_ok skipped
  | @special first word head ending begins known plain ends =>
    refine ⟨first, _, word, rfl, begins, ?_⟩
    have skipped : skipFunction (first :: (head ++ ending ++ rest)) = .ok rest :=
      skipHeadAndBody_function (by decide) (by decide) plain ends
    simp only [List.mem_cons, List.not_mem_nil, or_false] at known
    rcases known with rfl | rfl | rfl | rfl <;> exact bind_of_eq_ok skipped
  | @unnamed first opening head body begins opens plain ends =>
    have unopened : declaresVariable (opening :: head ++ body ++ rest) = false :=
      declaresVariable_body plain ends
    have skipped : skipHeadAndBody 0 (opening :: head ++ body ++ rest) = .ok rest :=
      skipHeadAndBody_function (by decide) (by decide) plain (.body ends)
    refine ⟨first, _, _, rfl, begins, ?_⟩
    simp only [takeMember, List.drop_one, List.tail_cons, unopened, skipFunction]
    exact bind_of_eq_ok skipped
  | @statement first last word inside begins known plain ends =>
    refine ⟨first, _, word, rfl, begins, ?_⟩
    have skipped : skipStatement (first :: (inside ++ [last] ++ rest)) = .ok rest := by
      have word_first : balancedStatement 0 (kinds (first :: inside)) = true := by
        simpa [balancedStatement, balanced, begins, isOpening, isClosing] using plain
      simpa using @skipStatement_balanced rest (first :: inside) word_first last ends
    simp only [List.mem_cons, List.not_mem_nil, or_false] at known
    rcases known with rfl | rfl | rfl <;> exact bind_of_eq_ok skipped

/-- A place between two members of a contract of the source `ts`, with `rest` before it. -/
def Boundary (ts rest : List Token) : Prop :=
  ∃ told c m, Reaches (.outside .empty ts) (.inside told c m rest)

theorem reaches_unstored (told : SourceUnit) (c : ContractItem) (m : Members) (unstored : Unstored ts)
    (rest : List Token) : Reaches (.inside told c m (ts ++ rest)) (.inside told c m rest) := by
  obtain ⟨t, us, word, rfl, begins, taken⟩ := takeMember_unstored unstored rest
  have step : Step (.inside told c m (t :: (us ++ rest))) (.inside told c (m.append .none) rest) :=
    .member begins taken
  rw [members_append_none] at step
  exact .single step

theorem reaches_all_unstored (told : SourceUnit) (c : ContractItem) (m : Members)
    {members : List (List Token)} (unstored : ∀ ts ∈ members, Unstored ts) (rest : List Token) :
    Reaches (.inside told c m (members.flatten ++ rest)) (.inside told c m rest) := by
  induction members with
  | nil => exact .refl
  | cons ts members ih =>
    obtain ⟨first, others⟩ := List.forall_mem_cons.mp unstored
    rw [List.flatten_cons, List.append_assoc]
    exact (reaches_unstored told c m first _).trans (ih others)

/-- Members that are not stored are skipped between two members of a contract, if the tokens before that
place tell which members there are variables. -/
theorem skipped_of_told (front rest : List Token) (boundary : Boundary (front ++ rest) rest)
    (known : ∀ ts, Boundary (front ++ rest) (ts ++ rest) → ToldBefore ts rest)
    {members : List (List Token)} (unstored : ∀ ts ∈ members, Unstored ts) :
    SourceUnit.ofTokens (front ++ (members.flatten ++ rest)) = SourceUnit.ofTokens (front ++ rest) := by
  obtain ⟨told, c, m, path⟩ := boundary
  obtain ⟨q, is, paths⟩ := @reaches_exchange (.outside .empty front) _ rest path (Nat.le_refl _)
    fun t c m ts onward _ => known ts ⟨t, c, m, onward⟩
  cases q with
  | outside told' ts => contradiction
  | inside told' c' m' ts =>
    simp only [Place.behind, Place.inside.injEq] at is
    obtain ⟨rfl, rfl, rfl, none⟩ := is
    obtain rfl : ts = [] := List.self_eq_append_left.mp none
    have onward := reaches_all_unstored told c m unstored rest
    calc SourceUnit.ofTokens (front ++ (members.flatten ++ rest))
        = (Place.outside .empty (front ++ (members.flatten ++ rest))).finish := ofTokens_finish _
      _ = (Place.inside told c m (members.flatten ++ rest)).finish := reaches_finish (paths _)
      _ = (Place.inside told c m rest).finish := reaches_finish onward
      _ = (Place.outside .empty (front ++ rest)).finish := (reaches_finish path).symm
      _ = SourceUnit.ofTokens (front ++ rest) := (ofTokens_finish _).symm

end

end ContractRegistry.Source
