import ContractRegistry.Proofs.Source.Unstored

/-!
Searches that go on behind their variable.

The search for the end of the head of a function counts parentheses only. In a variable whose array
length leaves one open, it goes on behind the variable, and what it finds there decides whether there is
a variable. A function that is put there can close the parentheses and end the search, so that the
variable is lost. In all other places members that are not stored are skipped.
-/
namespace ContractRegistry.Source

def SourceUnit.variableCount (u : SourceUnit) : Nat :=
  (u.contracts.flatMap ContractItem.declared).length

def Members.variableCount (m : Members) : Nat :=
  m.declared.length + m.types.variableCount

def Place.variableCount : Place → Nat
  | .outside told _ => told.variableCount
  | .inside told _ m _ => told.variableCount + m.variableCount

@[simp] theorem variableCount_append (u v : SourceUnit) :
    (u ++ v).variableCount = u.variableCount + v.variableCount := by
  show (SourceUnit.append u v).variableCount = _
  simp [SourceUnit.variableCount, SourceUnit.append]

@[simp] theorem members_variableCount_append (m n : Members) :
    (m.append n).variableCount = m.variableCount + n.variableCount := by
  simp only [Members.variableCount, Members.append, List.length_append, variableCount_append]
  omega

@[simp] theorem variableCount_ofHeading (c : ContractItem) (m : Members) :
    (ofHeading c m).variableCount = m.variableCount := by
  have one :
      (SourceUnit.ofContract { c with declared := m.declared }).variableCount = m.declared.length := by
    simp [SourceUnit.variableCount, SourceUnit.ofContract]
  rw [ofHeading, variableCount_append, Members.variableCount, one, Nat.add_comm]

theorem step_variableCount {p q : Place} (step : Step p q) : p.variableCount ≤ q.variableCount := by
  cases step with
  | dropped | enter | stray => exact Nat.le_refl _
  | item => simp [Place.variableCount]
  | member => simp [Place.variableCount]
  | leave => simp [Place.variableCount]

theorem reaches_variableCount {p q : Place} (path : Reaches p q) : p.variableCount ≤ q.variableCount := by
  induction path with
  | refl => exact Nat.le_refl _
  | tail _ step ih => exact Nat.le_trans ih (step_variableCount step)

/-- From two places in contracts with the same tokens before them the same is told in the end only if as
many variables were told before. -/
theorem finish_variableCount {told told' u : SourceUnit} {c c' : ContractItem} {m m' : Members}
    {ts : List Token} (first : (Place.inside told c m ts).finish = .ok u)
    (second : (Place.inside told' c' m' ts).finish = .ok u) :
    (Place.inside told c m ts).variableCount = (Place.inside told' c' m' ts).variableCount := by
  obtain ⟨⟨n, left⟩, taken, run⟩ := bind_eq_ok.mp first
  obtain ⟨w, parsed, eq⟩ := bind_eq_ok.mp run
  obtain ⟨⟨n', left'⟩, taken', run'⟩ := bind_eq_ok.mp second
  obtain ⟨w', parsed', eq'⟩ := bind_eq_ok.mp run'
  cases Except.ok.inj (taken.symm.trans taken')
  cases Except.ok.inj (parsed.symm.trans parsed')
  have same := congrArg SourceUnit.variableCount (Except.ok.inj (eq.trans eq'.symm))
  simp only [variableCount_append, variableCount_ofHeading, members_variableCount_append] at same
  simp only [Place.variableCount]
  omega

/-- A token ends a search, or both the search and a reader that skips a function go on behind it. -/
theorem search_step (depth : Nat) (last : Option TokenKind) (t : Token) :
    (∃ ended, ∀ ts, headEndsInName depth last (t :: ts) = ended) ∨
      ∃ depth' last', ∀ ts, headEndsInName depth last (t :: ts) = headEndsInName depth' last' ts ∧
        skipHeadAndBody depth (t :: ts) = skipHeadAndBody depth' ts := by
  by_cases opens : t.kind = .punct '('
  · refine .inr ⟨depth + 1, last, fun ts => ⟨by rw [headEndsInName, if_pos opens], ?_⟩⟩
    cases depth <;> simp [skipHeadAndBody, opens]
  by_cases closes : t.kind = .punct ')'
  · refine .inr ⟨depth - 1, _, fun ts => ⟨by rw [headEndsInName, if_neg opens, if_pos closes], ?_⟩⟩
    cases depth <;> simp [skipHeadAndBody, closes]
  cases depth with
  | succ depth =>
    refine .inr ⟨depth + 1, last, fun ts => ⟨?_, by simp [skipHeadAndBody, opens, closes]⟩⟩
    simp [headEndsInName, opens, closes]
  | zero =>
    by_cases brace : t.kind = .punct '\x7b'
    · exact .inl ⟨false, fun ts => by simp [headEndsInName, brace]⟩
    by_cases equals : t.kind = .punct '='
    · exact .inl ⟨true, fun ts => by simp [headEndsInName, equals]⟩
    by_cases semicolon : t.kind = .punct ';'
    · exact .inl ⟨isVariableName last, fun ts => by simp [headEndsInName, semicolon]⟩
    refine .inr ⟨0, some t.kind, fun ts => ⟨?_, by simp [skipHeadAndBody, opens, brace, semicolon]⟩⟩
    simp [headEndsInName, opens, closes, brace, equals, semicolon]

theorem search_goes_on {depth : Nat} {last : Option TokenKind} {us rest : List Token}
    (differ : headEndsInName depth last (us ++ rest) ≠ headEndsInName depth last us) :
    ∃ depth' last', ∀ more, headEndsInName depth last (us ++ more) = headEndsInName depth' last' more ∧
      skipHeadAndBody depth (us ++ more) = skipHeadAndBody depth' more := by
  induction us generalizing depth last with
  | nil => exact ⟨depth, last, fun more => ⟨rfl, rfl⟩⟩
  | cons t us ih =>
    obtain ⟨ended, ends⟩ | ⟨depth₁, last₁, goes⟩ := search_step depth last t
    · exact absurd ((ends (us ++ rest)).trans (ends us).symm) differ
    · rw [List.cons_append, (goes _).1, (goes _).1] at differ
      obtain ⟨depth', last', same⟩ := ih differ
      refine ⟨depth', last', fun more => ?_⟩
      rw [List.cons_append, (goes _).1, (goes _).2]
      exact same more

/-- Where the tokens before a place do not tell whether there is a variable, there is one, unless a search
that goes on at that place finds otherwise. -/
theorem not_told {ts rest : List Token} (untold : ¬ ToldBefore ts rest) :
    ∃ t us, ts = t :: us ∧ t.kind = .word "function" ∧ declaresVariable (us ++ rest) = true ∧
      ∃ depth last, ∀ more,
        (headEndsInName depth last more = false → declaresVariable (us ++ more) = false) ∧
          skipHeadAndBody 0 (us ++ more) = skipHeadAndBody depth more := by
  obtain ⟨begins, differ⟩ := Classical.not_imp.mp untold
  cases ts with
  | nil => contradiction
  | cons t us =>
    have function : t.kind = .word "function" := by
      rw [peekWord?, Token.word?] at begins
      split at begins
      · next is => rw [is, Option.some.inj begins]
      · contradiction
    refine ⟨t, us, rfl, function, ?_⟩
    simp only [List.cons_append, List.drop_one, List.tail_cons] at differ
    cases us with
    | nil =>
      refine ⟨by simpa [declaresVariable, atPunct] using differ, 0, none, fun more => ⟨fun ends => ?_, rfl⟩⟩
      simp [declaresVariable, ends]
    | cons u us =>
      have opens : atPunct '(' (u :: us) = true := by
        cases other : atPunct '(' (u :: us) with
        | true => rfl
        | false =>
          have unopened : atPunct '(' (u :: (us ++ rest)) = false := other
          simp [declaresVariable, other, unopened] at differ
      have heads : headEndsInName 0 none (u :: us ++ rest) ≠ headEndsInName 0 none (u :: us) := by
        intro same
        exact differ (by rw [declaresVariable, declaresVariable, same]; rfl)
      obtain ⟨depth, last, goes⟩ := search_goes_on heads
      have unended : headEndsInName 0 none (u :: us) = false := by
        simpa [headEndsInName] using (goes []).1
      have ended : headEndsInName 0 none (u :: us ++ rest) = true := by
        simpa [unended] using heads
      have declares : declaresVariable (u :: us ++ rest) = true := by
        rw [declaresVariable, ended, Bool.and_true]
        exact opens
      refine ⟨declares, depth, last, fun more => ⟨fun ends => ?_, (goes more).2⟩⟩
      rw [declaresVariable, (goes more).1, ends, Bool.and_false]

def closingFunction (depth : Nat) : List Token :=
  onLine (.word "function" :: .word "f" :: .punct '(' :: .punct ')' :: .punct '\x7b' ::
    (List.replicate depth (.punct ')') ++ [.punct '\x7d']))

/-- Functions that close as many parentheses, and end the search. -/
def covering : Nat → List (List Token)
  | 0 => [closingFunction 0]
  | depth + 1 => [closingFunction (depth + 1), closingFunction 0]

theorem closingFunction_unstored (depth : Nat) : Unstored (closingFunction depth) := by
  have inside : balancedInside '\x7b' '\x7d' (List.replicate depth (.punct ')')) = true := by
    induction depth with
    | zero => rfl
    | succ depth ih => simpa [List.replicate_succ, balancedInside, balanced] using ih
  have body : Body (onLine (.punct '\x7b' :: (List.replicate depth (.punct ')') ++ [.punct '\x7d']))) := by
    rw [onLine, List.map_cons, List.map_append]
    exact .braces rfl (by rw [← onLine, kinds_onLine]; exact inside) rfl
  exact @Unstored.function ⟨_, 1⟩ ⟨_, 1⟩ _ (onLine [.punct '(', .punct ')']) _ rfl rfl (by decide)
    (.body body)

theorem covering_unstored (depth : Nat) : ∀ ts ∈ covering depth, Unstored ts := by
  cases depth with
  | zero => exact List.forall_mem_singleton.mpr (closingFunction_unstored 0)
  | succ depth =>
    exact List.forall_mem_cons.mpr ⟨closingFunction_unstored (depth + 1),
      List.forall_mem_singleton.mpr (closingFunction_unstored 0)⟩

theorem closingFunction_balanced (depth : Nat) :
    balancedHead (depth + 1) headEnds (kinds (closingFunction (depth + 1))) = true := by
  have closed : ∀ d, balancedHead d headEnds (List.replicate d (.punct ')') ++ [.punct '\x7d']) = true := by
    intro d
    induction d with
    | zero => decide
    | succ d ih => simpa [List.replicate_succ, balancedHead, balanced] using ih
  simpa [closingFunction, balancedHead, balanced] using closed (depth + 1)

theorem covering_ends (depth : Nat) (last : Option TokenKind) (rest : List Token) :
    headEndsInName depth last ((covering depth).flatten ++ rest) = false ∧
      skipHeadAndBody depth ((covering depth).flatten ++ rest) = .ok rest := by
  cases depth with
  | zero => exact ⟨rfl, rfl⟩
  | succ depth =>
    have passed := closingFunction_balanced depth
    obtain ⟨last', same⟩ :=
      @headEndsInName_balanced (closingFunction 0 ++ rest) _ _ _ (by decide) (by decide) (by decide) passed last
    have skipped :=
      @skipHeadAndBody_balanced (closingFunction 0 ++ rest) _ _ _ (by decide) (by decide) passed
    simp only [covering, List.flatten_cons, List.flatten_nil, List.append_nil, List.append_assoc]
    exact ⟨same.trans rfl, skipped.trans rfl⟩

theorem takeMember_covered {t : Token} {us rest : List Token} {depth : Nat} {last : Option TokenKind}
    (unended : ∀ more, headEndsInName depth last more = false → declaresVariable (us ++ more) = false)
    (skips : ∀ more, skipHeadAndBody 0 (us ++ more) = skipHeadAndBody depth more) :
    takeMember "function" (t :: (us ++ ((covering depth).flatten ++ rest))) = .ok (.none, rest) := by
  obtain ⟨ends, skipped⟩ := covering_ends depth last rest
  have undeclared : ¬ declaresVariable (us ++ ((covering depth).flatten ++ rest)) = true := by
    simp [unended _ ends]
  rw [takeMember_function]
  refine (if_neg undeclared).trans (bind_of_eq_ok ?_)
  exact (skips _).trans skipped

theorem step_declares {told : SourceUnit} {c : ContractItem} {m : Members} {t : Token} {ts : List Token}
    {q : Place} (function : t.kind = .word "function") (declares : declaresVariable ts = true)
    (step : Step (.inside told c m (t :: ts)) q) :
    (Place.inside told c m (t :: ts)).variableCount < q.variableCount := by
  cases step with
  | stray is => simp [function] at is
  | leave closes => simp [function] at closes
  | member begins taken =>
    obtain rfl := TokenKind.word.inj (function.symm.trans begins)
    obtain ⟨⟨v, left⟩, -, eq⟩ := bind_eq_ok.mp ((if_pos declares).symm.trans taken)
    cases eq
    have one : (Members.ofVariable v).variableCount = 1 := rfl
    simp only [Place.variableCount, members_variableCount_append, one]
    omega

/-- A reader that comes to a variable of function type, and to a place behind it, has told more there. -/
theorem variable_told {p : Place} {told told' : SourceUnit} {c c' : ContractItem} {m m' : Members}
    {t : Token} {us rest : List Token} (path : Reaches p (.inside told c m (t :: us ++ rest)))
    (there : Reaches p (.inside told' c' m' rest)) (function : t.kind = .word "function")
    (declares : declaresVariable (us ++ rest) = true) :
    (Place.inside told c m (t :: us ++ rest)).variableCount <
      (Place.inside told' c' m' rest).variableCount := by
  have longer : rest.length < (t :: us ++ rest).length := by
    rw [List.length_append, List.length_cons]
    omega
  rcases reaches_total path there with onward | backward
  · rcases Relation.ReflTransGen.cases_head onward with eq | ⟨q, step, onward⟩
    · exact absurd (congrArg (·.left.length) eq) (Nat.ne_of_gt longer)
    · exact Nat.lt_of_lt_of_le (step_declares function declares step) (reaches_variableCount onward)
  · exact absurd (reaches_suffix backward).length_le (Nat.not_le_of_gt longer)

theorem told_of_skipped {front rest : List Token} {u : SourceUnit}
    (parsed : SourceUnit.ofTokens (front ++ rest) = .ok u) (boundary : Boundary (front ++ rest) rest)
    (skipped : ∀ members : List (List Token), (∀ ts ∈ members, Unstored ts) →
      SourceUnit.ofTokens (front ++ (members.flatten ++ rest)) = .ok u)
    {ts : List Token} (before : Boundary (front ++ rest) (ts ++ rest)) : ToldBefore ts rest := by
  -- The first member that is not told is taken as a variable. With a function behind it that ends its
  -- search it is not, so that fewer variables are told.
  induction left : front.length - ts.length using Nat.strongRecOn generalizing ts with
  | ind n ih =>
    obtain ⟨told, c, m, path⟩ := before
    have within : ts.length ≤ front.length := by simpa [Place.left] using (reaches_suffix path).length_le
    refine Decidable.byContradiction fun untold => ?_
    have known : ∀ t c m us, Reaches (.outside .empty (front ++ rest)) (.inside t c m (us ++ rest)) →
        (ts ++ rest).length < (us ++ rest).length → ToldBefore us rest := by
      intro t c m us onward earlier
      have shorter := (reaches_suffix onward).length_le
      simp only [Place.left, List.length_append] at shorter earlier
      exact ih (front.length - us.length) (by omega) ⟨t, c, m, onward⟩ rfl
    obtain ⟨q, is, paths⟩ :=
      @reaches_exchange (.outside .empty front) _ rest path (by simp [Place.left]) known
    cases q with
    | outside => contradiction
    | inside told₀ c₀ m₀ us₀ =>
      simp only [Place.behind, Place.inside.injEq, List.append_cancel_right_eq] at is
      obtain ⟨rfl, rfl, rfl, rfl⟩ := is
      obtain ⟨t, us, rfl, function, declares, depth, last, goes⟩ := not_told untold
      have covered :
          takeMember "function" (t :: (us ++ ((covering depth).flatten ++ rest))) = .ok (.none, rest) :=
        takeMember_covered (fun more => (goes more).1) fun more => (goes more).2
      have without : (Place.inside told c m rest).finish = .ok u := by
        have onward := (paths ((covering depth).flatten ++ rest)).tail (.member function covered)
        rw [members_append_none] at onward
        rw [← reaches_finish onward]
        exact (ofTokens_finish _).symm.trans (skipped _ (covering_unstored depth))
      obtain ⟨told', c', m', there⟩ := boundary
      have whole : (Place.inside told' c' m' rest).finish = .ok u := by
        rw [← reaches_finish there, ← ofTokens_finish]
        exact parsed
      have same := finish_variableCount without whole
      have fewer := variable_told path there function declares
      exact absurd same (Nat.ne_of_lt fewer)

/-- Members that are not stored can be put between any two members of a contract if, and only if, the
tokens before that place tell which members there are variables. -/
theorem unstored_members_skipped (front rest : List Token) (u : SourceUnit)
    (parsed : SourceUnit.ofTokens (front ++ rest) = .ok u) (boundary : Boundary (front ++ rest) rest) :
    (∀ members : List (List Token), (∀ ts ∈ members, Unstored ts) →
      SourceUnit.ofTokens (front ++ (members.flatten ++ rest)) = .ok u) ↔
    ∀ ts, Boundary (front ++ rest) (ts ++ rest) → ToldBefore ts rest := by
  constructor
  · exact fun skipped ts => told_of_skipped parsed boundary skipped
  · exact fun known members unstored => (skipped_of_told front rest boundary known unstored).trans parsed

def hookFront : List Token :=
  onLine [.word "contract", .word "C", .punct '{', .word "function", .punct '(', .punct ')',
    .word "external", .word "hook", .punct ';']

def openRest : List Token :=
  onLine [.word "bool", .word "open", .punct ';', .punct '}']

def functionAndEvent : List (List Token) :=
  [onLine [.word "function", .word "f", .punct '(', .word "uint", .punct ')', .punct '{', .punct '(',
      .punct '}'],
    onLine [.word "event", .word "E", .punct '(', .punct ')', .punct ';']]

theorem hookFront_boundary : Boundary (hookFront ++ openRest) openRest := by
  have heading : takeHeading .plain (hookFront ++ openRest) =
      .ok (⟨"C", .plain, [], []⟩, hookFront.drop 3 ++ openRest) := rfl
  have hook : takeMember "function" (hookFront.drop 3 ++ openRest) =
      .ok (.ofVariable ⟨"hook", .function true, none, .mutable, none⟩, openRest) := rfl
  exact ⟨_, _, _, .tail (.single (.enter rfl rfl heading)) (.member rfl hook)⟩

theorem functionAndEvent_unstored : ∀ ts ∈ functionAndEvent, Unstored ts := by
  have function : Unstored functionAndEvent[0] :=
    @Unstored.function ⟨_, 1⟩ ⟨_, 1⟩ _ (onLine [.punct '(', .word "uint", .punct ')']) _ rfl rfl (by decide)
      (.body (@Body.braces ⟨_, 1⟩ ⟨_, 1⟩ (onLine [.punct '(']) rfl (by decide) rfl))
  have event : Unstored functionAndEvent[1] :=
    @Unstored.statement ⟨_, 1⟩ ⟨_, 1⟩ _ (onLine [.word "E", .punct '(', .punct ')']) rfl (by decide)
      (by decide) rfl
  exact List.forall_mem_cons.mpr ⟨function, List.forall_mem_cons.mpr ⟨event, by simp⟩⟩

def variableNames (u : SourceUnit) : List (List String) :=
  u.contracts.map fun c => c.declared.map (·.name)

theorem function_and_event_skipped :
    Boundary (hookFront ++ openRest) openRest ∧ (∀ ts ∈ functionAndEvent, Unstored ts) ∧
    SourceUnit.ofTokens (hookFront ++ (functionAndEvent.flatten ++ openRest)) =
      SourceUnit.ofTokens (hookFront ++ openRest) ∧
    (SourceUnit.ofTokens (hookFront ++ openRest)).toOption.map variableNames =
      some [["hook", "open"]] := by
  have known : ∀ ts, Boundary (hookFront ++ openRest) (ts ++ openRest) → ToldBefore ts openRest := by
    rintro ts ⟨told, c, m, path⟩
    have within : ts <:+ hookFront := List.suffix_append_self_iff.mp (reaches_suffix path)
    have all : ∀ n < 10, ToldBefore (hookFront.drop n) openRest := by decide
    rw [List.suffix_iff_eq_drop.mp within]
    exact all _ (Nat.lt_of_le_of_lt (Nat.sub_le _ _) (by decide))
  obtain ⟨u, parsed⟩ : ∃ u, SourceUnit.ofTokens (hookFront ++ openRest) = .ok u := ⟨_, rfl⟩
  have skipped := (unstored_members_skipped hookFront openRest u parsed hookFront_boundary).mpr known
    functionAndEvent functionAndEvent_unstored
  exact ⟨hookFront_boundary, functionAndEvent_unstored, skipped.trans parsed.symm, rfl⟩

/-- `contract C { function()[(] x;` The length is a parenthesis that is not closed. -/
def openLength : List Token :=
  onLine [.word "contract", .word "C", .punct '{', .word "function", .punct '(', .punct ')',
    .punct '[', .punct '(', .punct ']', .word "x", .punct ';']

def closedBehind : List Token :=
  onLine [.word "uint", .word "a", .punct '=', .punct ')', .word "b", .punct ';', .punct '}']

def hidingFunction : List Token :=
  onLine [.word "function", .word "f", .punct '(', .punct ')', .punct '{', .punct ')', .punct ';',
    .punct '}']

theorem openLength_boundary : Boundary (openLength ++ closedBehind) closedBehind := by
  have heading : takeHeading .plain (openLength ++ closedBehind) =
      .ok (⟨"C", .plain, [], []⟩, openLength.drop 3 ++ closedBehind) := rfl
  have open_variable : takeMember "function" (openLength.drop 3 ++ closedBehind) =
      .ok (.ofVariable ⟨"x", .array (.function false) (some (onLine [.punct '('])) 1, none, .mutable, none⟩,
        closedBehind) := rfl
  exact ⟨_, _, _, .tail (.single (.enter rfl rfl heading)) (.member rfl open_variable)⟩

/-- The search that begins at `x` ends in the initial value of `a`, or else in the body of the function
that is put between them. -/
theorem function_hides_open_variable :
    ¬ ∀ front rest u, SourceUnit.ofTokens (front ++ rest) = .ok u → Boundary (front ++ rest) rest →
      ∀ members : List (List Token), (∀ ts ∈ members, Unstored ts) →
        SourceUnit.ofTokens (front ++ (members.flatten ++ rest)) = .ok u := by
  intro skipped
  have function : Unstored hidingFunction :=
    @Unstored.function ⟨_, 1⟩ ⟨_, 1⟩ _ (onLine [.punct '(', .punct ')']) _ rfl rfl (by decide)
      (.body (@Body.braces ⟨_, 1⟩ ⟨_, 1⟩ (onLine [.punct ')', .punct ';']) rfl (by decide) rfl))
  have names : (SourceUnit.ofTokens (openLength ++ closedBehind)).toOption.map variableNames =
      some [["x", "a"]] := rfl
  have without : (SourceUnit.ofTokens
      (openLength ++ ([hidingFunction].flatten ++ closedBehind))).toOption.map variableNames =
        some [[]] := rfl
  cases parsed : SourceUnit.ofTokens (openLength ++ closedBehind) with
  | error e => simp [parsed, Except.toOption] at names
  | ok u =>
    have same := skipped openLength closedBehind u parsed openLength_boundary [hidingFunction]
      (by simpa using function)
    rw [same, ← parsed, names] at without
    simp at without

end ContractRegistry.Source
