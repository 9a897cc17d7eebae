import ContractRegistry.Proofs.Source.Cut
import Mathlib.Logic.Relation

/-!
Reading a source step by step.

Between two declarations, or two members of a contract, a reader stands at a place: it has told what is
behind it and has the tokens before it. A step takes one declaration or one member. Where the reading
ends does not change from step to step, so a part of a source that is passed in steps without a trace
has no part in what is read.
-/
namespace ContractRegistry.Source

def contractKind? : String → Option ContractKind
  | "abstract" => some .abstract
  | "contract" => some .plain
  | "interface" => some .interface
  | "library" => some .library
  | _ => none

def skipKind (kind : ContractKind) (ts : List Token) : Parsed (List Token) :=
  if kind = .abstract then takeThisWord "contract" ts else .ok ts

/-- Takes what stands before the members of a contract, its first word included. -/
def takeHeading (kind : ContractKind) (ts : List Token) : Parsed (Taken ContractItem) := do
  let ts ← skipKind kind (ts.drop 1)
  let (name, ts) ← takeWord "contract name" ts
  let (bases, ts) ← takeOptionalBases ts
  let ts ← takePunct '\x7b' ts
  .ok (⟨name, kind, bases, []⟩, ts)

def ofHeading (c : ContractItem) (m : Members) : SourceUnit :=
  m.types ++ .ofContract { c with declared := m.declared }

theorem takeItem_contract {word : String} {kind : ContractKind} (begins : contractKind? word = some kind)
    (ts : List Token) :
    takeItem word ts = takeHeading kind ts >>= fun heading =>
      takeMembers heading.2.length heading.2 >>= fun members =>
        .ok (ofHeading heading.1 members.1, members.2) := by
  unfold contractKind? at begins
  split at begins <;> cases begins <;> unfold takeItem <;>
    simp only [takeContract, takeHeading, skipKind, ofHeading, bind_assoc, reduceCtorEq, if_false,
      if_true] <;> rfl

/-- A place in a source: outside of contracts, or between the members of one with its heading. What is
told is what was read before. -/
inductive Place where
  | outside (told : SourceUnit) (ts : List Token)
  | inside (told : SourceUnit) (c : ContractItem) (m : Members) (ts : List Token)

namespace Place

def left : Place → List Token
  | .outside _ ts => ts
  | .inside _ _ _ ts => ts

def behind (more : List Token) : Place → Place
  | .outside told ts => .outside told (ts ++ more)
  | .inside told c m ts => .inside told c m (ts ++ more)

def finish : Place → Parsed SourceUnit
  | .outside told ts => do
    let u ← SourceUnit.ofTokens ts
    .ok (told ++ u)
  | .inside told c m ts => do
    let (n, ts) ← takeMembers ts.length ts
    let u ← SourceUnit.ofTokens ts
    .ok (told ++ ofHeading c (m.append n) ++ u)

end Place

inductive Step : Place → Place → Prop where
  | dropped {told : SourceUnit} {t : Token} {ts : List Token} (other : t.word? = none) :
      Step (.outside told (t :: ts)) (.outside told ts)
  | item {told u : SourceUnit} {t : Token} {ts rest : List Token} {word : String}
      (begins : t.word? = some word) (other : contractKind? word = none)
      (taken : takeItem word (t :: ts) = .ok (u, rest)) :
      Step (.outside told (t :: ts)) (.outside (told ++ u) rest)
  | enter {told : SourceUnit} {t : Token} {ts rest : List Token} {word : String}
      {kind : ContractKind} {c : ContractItem} (begins : t.word? = some word)
      (known : contractKind? word = some kind) (taken : takeHeading kind (t :: ts) = .ok (c, rest)) :
      Step (.outside told (t :: ts)) (.inside told c .none rest)
  | stray {told : SourceUnit} {c : ContractItem} {m : Members} {t : Token} {ts : List Token} {p : Char}
      (is : t.kind = .punct p) (other : p ≠ '\x7d') :
      Step (.inside told c m (t :: ts)) (.inside told c m ts)
  | member {told : SourceUnit} {c : ContractItem} {m n : Members} {t : Token} {ts rest : List Token}
      {word : String} (begins : t.kind = .word word)
      (taken : takeMember word (t :: ts) = .ok (n, rest)) :
      Step (.inside told c m (t :: ts)) (.inside told c (m.append n) rest)
  | leave {told : SourceUnit} {c : ContractItem} {m : Members} {t : Token} {ts : List Token}
      (closes : t.kind = .punct '\x7d') :
      Step (.inside told c m (t :: ts)) (.outside (told ++ ofHeading c m) ts)

abbrev Reaches : Place → Place → Prop :=
  Relation.ReflTransGen Step

theorem members_append_assoc (m n o : Members) : (m.append n).append o = m.append (n.append o) := by
  simp [Members.append, append_assoc]

theorem members_none_append (m : Members) : Members.none.append m = m := rfl

theorem unit_append_empty (u : SourceUnit) : u ++ SourceUnit.empty = u := by
  show SourceUnit.append u SourceUnit.empty = u
  simp [SourceUnit.append, SourceUnit.empty]

theorem members_append_none (m : Members) : m.append .none = m := by
  simp [Members.append, Members.none, unit_append_empty]

theorem takeMembers_enough {rounds rounds' : Nat} {ts : List Token} (enough : ts.length ≤ rounds)
    (enough' : ts.length ≤ rounds') : takeMembers rounds ts = takeMembers rounds' ts := by
  induction rounds generalizing rounds' ts with
  | zero =>
    obtain rfl := List.length_eq_zero_iff.mp (Nat.le_zero.mp enough)
    cases rounds' <;> rfl
  | succ rounds ih =>
    cases ts with
    | nil => cases rounds' <;> rfl
    | cons t ts =>
      obtain ⟨rounds', rfl⟩ : ∃ r, rounds' = r + 1 :=
        ⟨rounds' - 1, by rw [List.length_cons] at enough'; omega⟩
      have less : ts.length ≤ rounds := Nat.le_of_succ_le_succ enough
      have less' : ts.length ≤ rounds' := Nat.le_of_succ_le_succ enough'
      rw [takeMembers, takeMembers]
      split
      · split
        · rfl
        · exact ih less less'
      · next word _ =>
        cases first : takeMember word (t :: ts) with
        | error e => rfl
        | ok taken =>
          obtain ⟨m, rest⟩ := taken
          have shorter := (takeMember_continued 0 [] first).1
          rw [List.length_cons] at shorter
          have same : takeMembers rounds rest = takeMembers rounds' rest := ih (by omega) (by omega)
          rw [bind_of_eq_ok rfl, bind_of_eq_ok rfl]
          dsimp only
          rw [same]
      · rfl

theorem ofTokens_dropped {t : Token} (other : t.word? = none) (ts : List Token) :
    SourceUnit.ofTokens (t :: ts) = SourceUnit.ofTokens ts := by
  rw [SourceUnit.ofTokens, List.length_cons, takeItems, other]
  rfl

theorem ofTokens_item {t : Token} {word : String} (begins : t.word? = some word) (ts : List Token) :
    SourceUnit.ofTokens (t :: ts) = takeItem word (t :: ts) >>= fun taken =>
      SourceUnit.ofTokens taken.2 >>= fun u => .ok (taken.1 ++ u) := by
  rw [SourceUnit.ofTokens, List.length_cons, takeItems, begins]
  dsimp only
  cases first : takeItem word (t :: ts) with
  | error e => rfl
  | ok taken =>
    obtain ⟨u, rest⟩ := taken
    have shorter := (takeItem_continued 0 [] first).1
    have same : takeItems ts.length rest = SourceUnit.ofTokens rest :=
      takeItems_enough (Nat.le_of_lt_succ shorter) (Nat.le_refl _)
    rw [bind_of_eq_ok rfl, bind_of_eq_ok rfl]
    dsimp only
    rw [same]

/-- What the source tells from the members of a contract on. -/
theorem finish_inside (told : SourceUnit) (c : ContractItem) (m : Members) (ts : List Token) :
    (Place.inside told c m ts).finish = takeMembers ts.length ts >>= fun members =>
      (Place.outside (told ++ ofHeading c (m.append members.1)) members.2).finish := rfl

theorem step_finish {p q : Place} (step : Step p q) : p.finish = q.finish := by
  cases step with
  | dropped other => rw [Place.finish, ofTokens_dropped other, Place.finish]
  | item begins other taken =>
    rw [Place.finish, ofTokens_item begins, bind_of_eq_ok taken, Place.finish, bind_assoc]
    simp only [append_assoc]
    rfl
  | enter begins known taken =>
    rw [Place.finish, ofTokens_item begins, takeItem_contract known, bind_of_eq_ok taken, finish_inside]
    simp only [bind_assoc, members_none_append]
    refine congrArg (_ >>= ·) (funext fun members => ?_)
    simp only [Place.finish, append_assoc]
    rfl
  | stray is other =>
    rw [finish_inside, List.length_cons, takeMembers, is]
    dsimp only
    rw [if_neg other, finish_inside]
  | @member told c m n t ts rest word begins taken =>
    have shorter := (takeMember_continued 0 [] taken).1
    have same : takeMembers ts.length rest = takeMembers rest.length rest :=
      takeMembers_enough (Nat.le_of_lt_succ shorter) (Nat.le_refl _)
    rw [finish_inside, List.length_cons, takeMembers, begins]
    dsimp only
    rw [bind_of_eq_ok taken, bind_assoc, finish_inside]
    dsimp only
    rw [same]
    refine congrArg (_ >>= ·) (funext fun members => ?_)
    rw [members_append_assoc]
    rfl
  | leave closes =>
    rw [finish_inside, List.length_cons, takeMembers, closes]
    dsimp only
    rw [if_pos rfl]
    refine (bind_of_eq_ok rfl).trans ?_
    rw [members_append_none]

theorem reaches_finish {p q : Place} (path : Reaches p q) : p.finish = q.finish := by
  induction path with
  | refl => rfl
  | tail _ step ih => exact ih.trans (step_finish step)

theorem ofTokens_finish (ts : List Token) :
    SourceUnit.ofTokens ts = (Place.outside .empty ts).finish :=
  (bind_pure _).symm

theorem skipKind_continued (k : Nat) (more : List Token) {kind : ContractKind} {ts rest : List Token}
    (run : skipKind kind ts = .ok rest) :
    rest.length ≤ ts.length ∧ skipKind kind (continued k more ts) = .ok (continued k more rest) := by
  unfold skipKind at run ⊢
  split at run
  · next abstract =>
    obtain ⟨shorter, again⟩ := takeKind_continued k more run
    exact ⟨Nat.le_of_lt shorter, (if_pos abstract).trans again⟩
  · next other =>
    cases run
    exact ⟨Nat.le_refl _, if_neg other⟩

theorem skipKind_cuts (kind : ContractKind) : CutsSkipped (skipKind kind) := by
  intro ts more rest run kept
  unfold skipKind at run ⊢
  split at run
  · next abstract =>
    rw [if_pos abstract]
    exact takeKind_cuts _ _ run kept
  · next other =>
    cases run
    exact ⟨ts, rfl, if_neg other⟩

theorem takeHeading_continued (k : Nat) (more : List Token) {kind : ContractKind} {c : ContractItem}
    {ts rest : List Token} (run : takeHeading kind ts = .ok (c, rest)) :
    rest.length < ts.length ∧ takeHeading kind (continued k more ts) = .ok (c, continued k more rest) := by
  obtain ⟨ts₁, begun, run⟩ := bind_eq_ok.mp run
  obtain ⟨⟨name, ts₂⟩, named, run⟩ := bind_eq_ok.mp run
  obtain ⟨⟨bases, ts₃⟩, based, run⟩ := bind_eq_ok.mp run
  obtain ⟨ts₄, opened, run⟩ := bind_eq_ok.mp run
  cases run
  obtain ⟨shorter₁, again₁⟩ := skipKind_continued k more begun
  obtain ⟨shorter₂, again₂⟩ := takeWord_continued k more named
  obtain ⟨shorter₃, again₃⟩ := takeOptionalBases_continued k more based
  obtain ⟨shorter₄, again₄⟩ := takeKind_continued k more opened
  rw [List.length_drop] at shorter₁
  have left : ts ≠ [] := List.ne_nil_of_length_pos (by omega)
  have left₃ : ts₃ ≠ [] := List.ne_nil_of_length_pos (by omega)
  rw [← drop_continued k more left] at again₁
  refine ⟨by omega, bind_eq_ok.mpr ⟨_, again₁, bind_eq_ok.mpr ⟨_, again₂, ?_⟩⟩⟩
  exact bind_eq_ok.mpr ⟨_, again₃ left₃, bind_eq_ok.mpr ⟨_, again₄, rfl⟩⟩

theorem takeHeading_cuts (kind : ContractKind) : Cuts (takeHeading kind) := by
  intro ts more rest c run kept
  cases ts with
  | nil => exact not_kept (takeHeading_continued 0 [] run).1 kept
  | cons t ts =>
    obtain ⟨ts₁, begun, run⟩ := bind_eq_ok.mp run
    obtain ⟨⟨name, ts₂⟩, named, run⟩ := bind_eq_ok.mp run
    obtain ⟨⟨bases, ts₃⟩, based, run⟩ := bind_eq_ok.mp run
    obtain ⟨ts₄, opened, run⟩ := bind_eq_ok.mp run
    cases run
    have shorter₂ := (takeWord_continued 0 [] named).1
    have shorter₃ := (takeOptionalBases_continued 0 [] based).1
    have shorter₄ := (takeKind_continued 0 [] opened).1
    obtain ⟨ts₁, rfl, again₁⟩ := @skipKind_cuts kind ts more ts₁ begun (by omega)
    obtain ⟨ts₂, rfl, again₂⟩ := takeWord_cuts _ named (by omega)
    obtain ⟨ts₃, rfl, again₃⟩ := takeOptionalBases_cuts based (by omega)
    obtain ⟨left, rfl, again₄⟩ := takeKind_cuts _ _ opened kept
    refine ⟨left, rfl, bind_eq_ok.mpr ⟨_, again₁, bind_eq_ok.mpr ⟨_, again₂, ?_⟩⟩⟩
    exact bind_eq_ok.mpr ⟨_, again₃, bind_eq_ok.mpr ⟨_, again₄, rfl⟩⟩

theorem takeItem_cuts {word : String} (other : contractKind? word = none) {t : Token}
    {ts more rest : List Token} {u : SourceUnit} (run : takeItem word (t :: (ts ++ more)) = .ok (u, rest))
    (kept : more.length ≤ rest.length) :
    ∃ left, rest = left ++ more ∧ takeItem word (t :: ts) = .ok (u, left) := by
  have function := skipped_cuts skipFunction_cuts SourceUnit.empty
  have statement := skipped_cuts skipStatement_cuts SourceUnit.empty
  rw [← List.cons_append] at run
  unfold takeItem at run ⊢
  dsimp only at run ⊢
  split at run
  case h_1 | h_2 | h_3 | h_4 | h_5 => exact statement run kept
  case h_6 => exact function run kept
  case h_7 | h_8 | h_9 | h_10 => contradiction
  case h_11 => exact told_cuts takeStruct_cuts SourceUnit.ofStruct run kept
  case h_12 => exact told_cuts takeEnum_cuts SourceUnit.ofEnum run kept
  case h_13 => exact told_cuts takeValueType_cuts SourceUnit.ofValueType run kept
  case h_14 => exact told_cuts takeVariable_cuts SourceUnit.ofVariable run kept

theorem step_shorter {p q : Place} (step : Step p q) : q.left.length < p.left.length := by
  cases step with
  | dropped | stray | leave => exact Nat.lt_succ_self _
  | item _ _ taken => exact (takeItem_continued 0 [] taken).1
  | member _ taken => exact (takeMember_continued 0 [] taken).1
  | enter _ _ taken => exact (takeHeading_continued 0 [] taken).1

theorem takeItem_suffix {word : String} (other : contractKind? word = none) {t : Token}
    {ts rest : List Token} {u : SourceUnit} (run : takeItem word (t :: ts) = .ok (u, rest)) :
    rest <:+ t :: ts := by
  have cuts : Cuts fun us => takeItem word (t :: us) := fun _ _ _ _ => takeItem_cuts other
  have shorter := (takeItem_continued 0 [] run).1
  exact (suffix_of_cuts cuts run (Nat.le_of_lt_succ shorter)).trans (List.suffix_cons t ts)

theorem takeMember_function (ts : List Token) :
    takeMember "function" ts =
      if declaresVariable (ts.drop 1) then
        takeVariable ts >>= fun taken => .ok (Members.ofVariable taken.1, taken.2)
      else skipFunction ts >>= fun left => .ok (Members.none, left) := rfl

theorem takeMember_suffix {word : String} {t : Token} {ts rest : List Token} {m : Members}
    (run : takeMember word (t :: ts) = .ok (m, rest)) : rest <:+ t :: ts := by
  have shorter := (takeMember_continued 0 [] run).1
  by_cases function : word = "function"
  · rw [function, takeMember_function] at run
    split at run
    · exact suffix_of_cuts (told_cuts takeVariable_cuts Members.ofVariable) run (Nat.le_of_lt shorter)
    · exact suffix_of_cuts (skipped_cuts skipFunction_cuts Members.none) run (Nat.le_of_lt shorter)
  · have cuts : Cuts fun us => takeMember word (t :: us) :=
      fun _ _ _ _ run kept => takeMember_cuts run kept fun is => absurd is function
    exact (suffix_of_cuts cuts run (Nat.le_of_lt_succ shorter)).trans (List.suffix_cons t ts)

theorem step_unique : Relator.RightUnique Step := by
  intro p q q' step step'
  cases step with
  | dropped other =>
    cases step' with
    | dropped => rfl
    | item begins | enter begins => simp [begins] at other
  | item begins other taken =>
    cases step' with
    | dropped none => simp [begins] at none
    | item begins' _ taken' =>
      obtain rfl := Option.some.inj (begins.symm.trans begins')
      cases Except.ok.inj (taken.symm.trans taken')
      rfl
    | enter begins' known =>
      obtain rfl := Option.some.inj (begins.symm.trans begins')
      simp [other] at known
  | enter begins known taken =>
    cases step' with
    | dropped none => simp [begins] at none
    | item begins' other =>
      obtain rfl := Option.some.inj (begins.symm.trans begins')
      simp [other] at known
    | enter begins' known' taken' =>
      obtain rfl := Option.some.inj (begins.symm.trans begins')
      obtain rfl := Option.some.inj (known.symm.trans known')
      cases Except.ok.inj (taken.symm.trans taken')
      rfl
  | stray is other =>
    cases step' with
    | stray => rfl
    | member begins => simp [begins] at is
    | leave closes => exact absurd (TokenKind.punct.inj (is.symm.trans closes)) other
  | member begins taken =>
    cases step' with
    | stray is => simp [begins] at is
    | member begins' taken' =>
      obtain rfl := TokenKind.word.inj (begins.symm.trans begins')
      cases Except.ok.inj (taken.symm.trans taken')
      rfl
    | leave closes => simp [begins] at closes
  | leave closes =>
    cases step' with
    | stray is other => exact absurd (TokenKind.punct.inj (is.symm.trans closes)) other
    | member begins => simp [begins] at closes
    | leave => rfl

theorem reaches_total {p q r : Place} (first : Reaches p q) (second : Reaches p r) :
    Reaches q r ∨ Reaches r q :=
  Relation.ReflTransGen.total_of_right_unique step_unique first second

theorem step_suffix {p q : Place} (step : Step p q) : q.left <:+ p.left := by
  cases step with
  | dropped | stray | leave => exact List.suffix_cons _ _
  | item _ other taken => exact takeItem_suffix other taken
  | member _ taken => exact takeMember_suffix taken
  | enter _ _ taken =>
    exact suffix_of_cuts (takeHeading_cuts _) taken (Nat.le_of_lt (takeHeading_continued 0 [] taken).1)

theorem reaches_suffix {p q : Place} (path : Reaches p q) : q.left <:+ p.left := by
  induction path with
  | refl => exact List.suffix_refl _
  | tail _ step ih => exact (step_suffix step).trans ih

@[simp] theorem token_down_zero : Token.down 0 = id := rfl

@[simp] theorem continued_zero (more ts : List Token) : continued 0 more ts = ts ++ more := by
  simp [continued]

@[simp] theorem typeExpr_down_zero (ty : TypeExpr) : ty.down 0 = ty := by
  induction ty with
  | named name line => rfl
  | mapping key value ihk ihv => rw [TypeExpr.down, ihk, ihv]
  | array element length line ih => rw [TypeExpr.down, ih]; cases length <;> simp
  | function external => rfl

@[simp] theorem variable_down_zero (v : VariableItem) : v.down 0 = v := by
  cases v with
  | mk name ty visibility mutability init => cases init <;> simp [VariableItem.down]

@[simp] theorem struct_down_zero (s : StructItem) : s.down 0 = s := by
  simp [StructItem.down]

@[simp] theorem unit_down_zero (u : SourceUnit) : u.down 0 = u := by
  have declared : VariableItem.down 0 = id := funext variable_down_zero
  have structs : StructItem.down 0 = id := funext struct_down_zero
  have valueTypes : ValueTypeItem.down 0 = id := rfl
  have contracts : ContractItem.down 0 = id := by
    funext c
    simp [ContractItem.down, declared]
  simp [SourceUnit.down, declared, structs, valueTypes, contracts]

@[simp] theorem members_down_zero (m : Members) : m.down 0 = m := by
  have declared : VariableItem.down 0 = id := funext variable_down_zero
  simp [Members.down, declared]

/-- The tokens before the rest tell whether a member that begins with the word for functions is a
variable. -/
def ToldBefore (ts rest : List Token) : Prop :=
  peekWord? ts = some "function" → declaresVariable ((ts ++ rest).drop 1) = declaresVariable (ts.drop 1)

instance (ts rest : List Token) : Decidable (ToldBefore ts rest) :=
  inferInstanceAs (Decidable (_ → _))

theorem step_exchange {p q : Place} {rest : List Token} (step : Step (p.behind rest) q)
    (kept : rest.length ≤ q.left.length)
    (known : ∀ t c m ts, p = .inside t c m ts → ToldBefore ts rest) :
    ∃ q' : Place, q = q'.behind rest ∧ ∀ more, Step (p.behind more) (q'.behind more) := by
  cases p with
  | outside told ts =>
    cases ts with
    | nil => exact not_kept (step_shorter step) kept
    | cons t ts =>
      simp only [Place.behind, List.cons_append] at step ⊢
      cases step with
      | dropped other => exact ⟨.outside told ts, rfl, fun more => .dropped other⟩
      | @item _ u _ _ _ word begins other taken =>
        obtain ⟨left, rfl, again⟩ := takeItem_cuts other taken kept
        refine ⟨.outside (told ++ u) left, rfl, fun more => .item begins other ?_⟩
        simpa using (takeItem_continued 0 more again).2
      | @enter _ _ _ _ word kind c begins is taken =>
        obtain ⟨left, rfl, again⟩ := @takeHeading_cuts kind (t :: ts) _ _ _ taken kept
        refine ⟨.inside told c .none left, rfl, fun more => .enter begins is ?_⟩
        simpa using (takeHeading_continued 0 more again).2
  | inside before c m ts =>
    cases ts with
    | nil => exact not_kept (step_shorter step) kept
    | cons t ts =>
      have toldBefore := known before c m (t :: ts) rfl
      simp only [Place.behind, List.cons_append] at step ⊢
      cases step with
      | stray is other => exact ⟨.inside before c m ts, rfl, fun more => .stray is other⟩
      | @member _ _ _ n _ _ _ word begins taken =>
        obtain ⟨left, rfl, again⟩ := takeMember_cuts taken kept fun function =>
          toldBefore (by simp [peekWord?, Token.word?, begins, function])
        refine ⟨.inside before c (m.append n) left, rfl, fun more => .member begins ?_⟩
        simpa using (takeMember_continued 0 more again).2
      | leave closes => exact ⟨.outside (before ++ ofHeading c m) ts, rfl, fun more => .leave closes⟩

/-- A reader comes to a place in all sources that begin alike, if all members on its way tell before
this place whether they are variables. -/
theorem reaches_exchange {p q : Place} {rest : List Token} (path : Reaches (p.behind rest) q)
    (kept : rest.length ≤ q.left.length)
    (known : ∀ t c m ts, Reaches (p.behind rest) (.inside t c m (ts ++ rest)) →
      q.left.length < (ts ++ rest).length → ToldBefore ts rest) :
    ∃ q' : Place, q = q'.behind rest ∧ ∀ more, Reaches (p.behind more) (q'.behind more) := by
  generalize start : p.behind rest = p' at path
  induction path using Relation.ReflTransGen.head_induction_on generalizing p with
  | refl => exact ⟨p, start.symm, fun more => .refl⟩
  | head step path ih =>
    subst start
    have behind := (reaches_suffix path).length_le
    have between := Nat.le_trans kept behind
    have before := Nat.lt_of_le_of_lt behind (step_shorter step)
    obtain ⟨p', rfl, steps⟩ := step_exchange step between fun t c m ts is =>
      known t c m ts (is ▸ .refl) (by simpa [is, Place.behind, Place.left] using before)
    obtain ⟨q', is, paths⟩ := ih (fun t c m ts onward => known t c m ts (.head step onward)) rfl
    exact ⟨q', is, fun more => .head (steps more) (paths more)⟩

end ContractRegistry.Source
