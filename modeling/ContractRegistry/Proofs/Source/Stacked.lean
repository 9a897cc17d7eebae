import ContractRegistry.Proofs.Source.Continued

/-!
Declarations in a source that goes on.

Every declaration ends with a token of its own, a semicolon or a closing brace, so that none looks at
what follows it. The one reader that looks ahead, for the end of the head of a function, finds it
within its own declaration whenever that declaration can be read at all.
-/
namespace ContractRegistry.Source

def StructItem.down (k : Nat) (s : StructItem) : StructItem :=
  { s with fields := s.fields.map fun f => (f.1, f.2.down k) }

def ValueTypeItem.down (k : Nat) (v : ValueTypeItem) : ValueTypeItem :=
  { v with line := v.line + k }

def VariableItem.down (k : Nat) (v : VariableItem) : VariableItem :=
  { v with ty := v.ty.down k, init := v.init.map (List.map (Token.down k)) }

def ContractItem.down (k : Nat) (c : ContractItem) : ContractItem :=
  { c with declared := c.declared.map (VariableItem.down k) }

def SourceUnit.down (k : Nat) (u : SourceUnit) : SourceUnit :=
  ⟨u.contracts.map (ContractItem.down k), u.structs.map (StructItem.down k), u.enums,
    u.valueTypes.map (ValueTypeItem.down k), u.constants.map (VariableItem.down k)⟩

def Members.down (k : Nat) (m : Members) : Members :=
  ⟨m.declared.map (VariableItem.down k), m.types.down k⟩

theorem down_append (k : Nat) (u v : SourceUnit) : (u ++ v).down k = u.down k ++ v.down k := by
  show SourceUnit.down k (SourceUnit.append u v) = SourceUnit.append (u.down k) (v.down k)
  simp [SourceUnit.down, SourceUnit.append]

theorem append_assoc (u v w : SourceUnit) : (u ++ v) ++ w = u ++ (v ++ w) := by
  show SourceUnit.append (SourceUnit.append u v) w = SourceUnit.append u (SourceUnit.append v w)
  simp [SourceUnit.append]

theorem members_down_append (k : Nat) (m n : Members) :
    (m.append n).down k = (m.down k).append (n.down k) := by
  simp [Members.append, Members.down, down_append]

theorem ofVariable_down (k : Nat) (v : VariableItem) :
    (SourceUnit.ofVariable v).down k = .ofVariable (v.down k) := by
  by_cases constant : v.mutability = .constant <;>
    simp [SourceUnit.ofVariable, SourceUnit.down, VariableItem.down, SourceUnit.empty, constant]

section
variable (k : Nat) (more : List Token)

theorem takeFields_continued {rounds rounds' : Nat} (enough : rounds ≤ rounds')
    {fields : List (String × TypeExpr)} {ts rest : List Token}
    (run : takeFields rounds ts = .ok (fields, rest)) :
    rest.length < ts.length ∧ takeFields rounds' (continued k more ts) =
      .ok (fields.map fun f => (f.1, f.2.down k), continued k more rest) := by
  induction rounds generalizing rounds' fields ts with
  | zero => cases ts <;> contradiction
  | succ rounds ih =>
    cases ts with
    | nil => contradiction
    | cons t ts =>
      obtain ⟨rounds', rfl⟩ : ∃ r, rounds' = r + 1 := ⟨rounds' - 1, by omega⟩
      rw [continued_cons]
      unfold takeFields at run ⊢
      rw [kind_down]
      split at run
      · next closes =>
        cases run
        rw [if_pos closes]
        exact ⟨Nat.lt_succ_self _, rfl⟩
      · next goes =>
        obtain ⟨⟨ty, ts₁⟩, typed, run⟩ := bind_eq_ok.mp run
        obtain ⟨⟨name, ts₂⟩, named, run⟩ := bind_eq_ok.mp run
        obtain ⟨ts₃, ended, run⟩ := bind_eq_ok.mp run
        obtain ⟨⟨others, ts₄⟩, onward, run⟩ := bind_eq_ok.mp run
        cases run
        obtain ⟨shorter₁, again₁⟩ := typeExpr_continued k more typed
        obtain ⟨shorter₂, again₂⟩ := takeWord_continued k more named
        obtain ⟨shorter₃, again₃⟩ := takeKind_continued k more ended
        obtain ⟨shorter₄, again₄⟩ := ih (Nat.le_of_succ_le_succ enough) onward
        have left : ts₁ ≠ [] := List.ne_nil_of_length_pos (by omega)
        refine ⟨by omega, ?_⟩
        rw [if_neg goes]
        exact bind_eq_ok.mpr ⟨_, again₁ left, bind_eq_ok.mpr ⟨_, again₂,
          bind_eq_ok.mpr ⟨_, again₃, bind_eq_ok.mpr ⟨_, again₄, rfl⟩⟩⟩⟩

theorem takeStruct_continued {s : StructItem} {ts rest : List Token}
    (run : takeStruct ts = .ok (s, rest)) :
    rest.length < ts.length ∧
      takeStruct (continued k more ts) = .ok (s.down k, continued k more rest) := by
  obtain ⟨⟨name, ts₁⟩, named, run⟩ := bind_eq_ok.mp run
  obtain ⟨ts₂, opened, run⟩ := bind_eq_ok.mp run
  obtain ⟨⟨fields, ts₃⟩, listed, run⟩ := bind_eq_ok.mp run
  cases run
  obtain ⟨shorter₁, again₁⟩ := takeWord_continued k more named
  obtain ⟨shorter₂, again₂⟩ := takeKind_continued k more opened
  obtain ⟨shorter₃, again₃⟩ := takeFields_continued k more (length_le_continued k more ts₂) listed
  refine ⟨by omega, ?_⟩
  exact bind_eq_ok.mpr ⟨_, again₁, bind_eq_ok.mpr ⟨_, again₂, bind_eq_ok.mpr ⟨_, again₃, rfl⟩⟩⟩

theorem countMembers_continued {count total : Nat} {ts rest : List Token}
    (run : countMembers count ts = .ok (total, rest)) :
    rest.length < ts.length ∧
      countMembers count (continued k more ts) = .ok (total, continued k more rest) := by
  induction ts generalizing count with
  | nil => contradiction
  | cons t ts ih =>
    rw [continued_cons]
    unfold countMembers at run ⊢
    rw [kind_down, word?_down]
    split at run
    · next word =>
      rw [if_pos word]
      exact (ih run).imp_left Nat.lt_succ_of_lt
    next wordNot =>
    rw [if_neg wordNot]
    split at run
    · next comma =>
      rw [if_pos comma]
      exact (ih run).imp_left Nat.lt_succ_of_lt
    next commaNot =>
    rw [if_neg commaNot]
    split at run
    · next closes =>
      cases run
      rw [if_pos closes]
      exact ⟨Nat.lt_succ_self _, rfl⟩
    · contradiction

theorem takeEnum_continued {e : EnumItem} {ts rest : List Token}
    (run : takeEnum ts = .ok (e, rest)) :
    rest.length < ts.length ∧
      takeEnum (continued k more ts) = .ok (e, continued k more rest) := by
  obtain ⟨⟨name, ts₁⟩, named, run⟩ := bind_eq_ok.mp run
  obtain ⟨ts₂, opened, run⟩ := bind_eq_ok.mp run
  obtain ⟨⟨members, ts₃⟩, counted, run⟩ := bind_eq_ok.mp run
  cases run
  obtain ⟨shorter₁, again₁⟩ := takeWord_continued k more named
  obtain ⟨shorter₂, again₂⟩ := takeKind_continued k more opened
  obtain ⟨shorter₃, again₃⟩ := countMembers_continued k more counted
  refine ⟨by omega, ?_⟩
  exact bind_eq_ok.mpr ⟨_, again₁, bind_eq_ok.mpr ⟨_, again₂, bind_eq_ok.mpr ⟨_, again₃, rfl⟩⟩⟩

theorem takeValueType_continued {v : ValueTypeItem} {ts rest : List Token}
    (run : takeValueType ts = .ok (v, rest)) :
    rest.length < ts.length ∧
      takeValueType (continued k more ts) = .ok (v.down k, continued k more rest) := by
  obtain ⟨⟨name, ts₁⟩, named, run⟩ := bind_eq_ok.mp run
  obtain ⟨ts₂, is, run⟩ := bind_eq_ok.mp run
  obtain ⟨⟨underlying, ts₃⟩, typed, run⟩ := bind_eq_ok.mp run
  obtain ⟨ts₄, ended, run⟩ := bind_eq_ok.mp run
  cases run
  obtain ⟨shorter₁, again₁⟩ := takeWord_continued k more named
  obtain ⟨shorter₂, again₂⟩ := takeKind_continued k more is
  obtain ⟨shorter₃, again₃⟩ := takeWord_continued k more typed
  obtain ⟨shorter₄, again₄⟩ := takeKind_continued k more ended
  have fewer := length_skipThisWord_le "payable" ts₃
  have shorter : (if underlying = "address" then skipThisWord "payable" ts₃ else ts₃).length ≤
      ts₃.length := by split <;> omega
  have before : ts₃ ≠ [] := List.ne_nil_of_length_pos (by omega)
  have start : ts ≠ [] := List.ne_nil_of_length_pos (by omega)
  refine ⟨by omega, ?_⟩
  unfold takeValueType
  rw [lineOf_continued k more start]
  refine bind_eq_ok.mpr ⟨_, again₁, bind_eq_ok.mpr ⟨_, again₂, bind_eq_ok.mpr ⟨_, again₃, ?_⟩⟩⟩
  refine bind_eq_ok.mpr ⟨_, ?_, rfl⟩
  rw [skipThisWord_continued k more "payable" before, ← apply_ite (continued k more)]
  exact again₄

theorem nameEnds_continued {ts : List Token} (left : ts ≠ []) :
    nameEnds (continued k more ts) = nameEnds ts := by
  cases ts with
  | nil => contradiction
  | cons t ts => rfl

theorem takeAttributes_continued {a : Attributes} {depth : Nat} {result : Attributes × String}
    {ts rest : List Token} (run : takeAttributes a depth ts = .ok (result, rest)) :
    rest.length < ts.length ∧ (rest ≠ [] →
      takeAttributes a depth (continued k more ts) = .ok (result, continued k more rest)) := by
  fun_induction takeAttributes a depth ts
  case case1 | case2 | case3 | case7 | case8 | case9 => contradiction
  case case4 a t ts text word ends =>
    cases run
    refine ⟨Nat.lt_succ_self _, fun left => ?_⟩
    rw [continued_cons, takeAttributes.eq_def]
    simp only [word?_down, word]
    rw [nameEnds_continued k more left, if_pos ends]
  case case5 a t text word b u us added opens ends ih =>
    obtain ⟨shorter, again⟩ := ih run
    refine ⟨by simp only [List.length_cons]; omega, fun left => ?_⟩
    rw [continued_cons, takeAttributes.eq_def]
    simp only [word?_down, word]
    rw [nameEnds_continued k more (List.cons_ne_nil u us), if_neg ends, continued_cons, added]
    exact (if_pos opens).trans (again left)
  case case6 a t text word b u us added opensNot ends ih =>
    obtain ⟨shorter, again⟩ := ih run
    refine ⟨Nat.lt_succ_of_lt shorter, fun left => ?_⟩
    rw [continued_cons, takeAttributes.eq_def]
    simp only [word?_down, word]
    rw [nameEnds_continued k more (List.cons_ne_nil u us), if_neg ends, continued_cons, added]
    exact (if_neg opensNot).trans (again left)
  case case10 opens ih =>
    obtain ⟨shorter, again⟩ := ih run
    refine ⟨Nat.lt_succ_of_lt shorter, fun left => ?_⟩
    rw [continued_cons, takeAttributes, kind_down, if_pos opens]
    exact again left
  case case11 opensNot closes ih =>
    obtain ⟨shorter, again⟩ := ih run
    refine ⟨Nat.lt_succ_of_lt shorter, fun left => ?_⟩
    rw [continued_cons, takeAttributes, kind_down, if_neg opensNot, if_pos closes]
    exact again left
  case case12 opensNot closesNot ih =>
    obtain ⟨shorter, again⟩ := ih run
    refine ⟨Nat.lt_succ_of_lt shorter, fun left => ?_⟩
    rw [continued_cons, takeAttributes, kind_down, if_neg opensNot, if_neg closesNot]
    exact again left

theorem takeInit_continued {init : Option (List Token)} {ts rest : List Token}
    (run : takeInit ts = .ok (init, rest)) :
    rest.length < ts.length ∧ takeInit (continued k more ts) =
      .ok (init.map (List.map (Token.down k)), continued k more rest) := by
  unfold takeInit at run ⊢
  split at run
  · next given =>
    obtain ⟨⟨tokens, behind⟩, first, run⟩ := bind_eq_ok.mp run
    cases run
    obtain ⟨shorter, again⟩ := upToSemicolon_continued k more first
    rw [List.length_drop] at shorter
    have left : ts ≠ [] := List.ne_nil_of_length_pos (by omega)
    refine ⟨by omega, ?_⟩
    rw [atPunct_continued k more '=' left, if_pos given, drop_continued k more left]
    exact bind_eq_ok.mpr ⟨_, again, rfl⟩
  · next none =>
    obtain ⟨behind, first, run⟩ := bind_eq_ok.mp run
    cases run
    obtain ⟨shorter, again⟩ := takeKind_continued k more first
    have left : ts ≠ [] := List.ne_nil_of_length_pos (by omega)
    refine ⟨shorter, ?_⟩
    rw [atPunct_continued k more '=' left, if_neg none]
    exact bind_eq_ok.mpr ⟨_, again, rfl⟩

theorem takeVariable_continued {v : VariableItem} {ts rest : List Token}
    (run : takeVariable ts = .ok (v, rest)) :
    rest.length < ts.length ∧
      takeVariable (continued k more ts) = .ok (v.down k, continued k more rest) := by
  obtain ⟨⟨ty, ts₁⟩, typed, run⟩ := bind_eq_ok.mp run
  obtain ⟨⟨⟨attributes, name⟩, ts₂⟩, named, run⟩ := bind_eq_ok.mp run
  obtain ⟨⟨init, ts₃⟩, ended, run⟩ := bind_eq_ok.mp run
  cases run
  obtain ⟨shorter₁, again₁⟩ := typeExpr_continued k more typed
  obtain ⟨shorter₂, again₂⟩ := takeAttributes_continued k more named
  obtain ⟨shorter₃, again₃⟩ := takeInit_continued k more ended
  have left₁ : ts₁ ≠ [] := List.ne_nil_of_length_pos (by omega)
  have left₂ : ts₂ ≠ [] := List.ne_nil_of_length_pos (by omega)
  refine ⟨by omega, ?_⟩
  exact bind_eq_ok.mpr ⟨_, again₁ left₁, bind_eq_ok.mpr ⟨_, again₂ left₂,
    bind_eq_ok.mpr ⟨_, again₃, rfl⟩⟩⟩

/-- What is no variable is skipped as a function. The search for the end of its head then stops within
what is skipped, at the same brace or semicolon, since it counts the same parentheses. -/
theorem headEndsInName_continued {depth : Nat} {last : Option TokenKind} {ts : List Token}
    (decided : headEndsInName depth last ts = true ∨ ∃ rest, skipHeadAndBody depth ts = .ok rest) :
    headEndsInName depth last (continued k more ts) = headEndsInName depth last ts := by
  fun_induction headEndsInName depth last ts
  case case1 depth last =>
    rcases decided with found | ⟨rest, run⟩
    · contradiction
    · cases depth <;> contradiction
  case case2 depth last t ts opens ih =>
    rw [continued_cons, headEndsInName, kind_down, if_pos opens]
    refine ih (decided.imp_right fun ⟨rest, run⟩ => ⟨rest, ?_⟩)
    cases depth <;> rwa [skipHeadAndBody, if_pos opens] at run
  case case3 depth last t ts opensNot closes ih =>
    rw [continued_cons, headEndsInName, kind_down, if_neg opensNot, if_pos closes]
    refine ih (decided.imp_right fun ⟨rest, run⟩ => ⟨rest, ?_⟩)
    cases depth with
    | zero => simpa [skipHeadAndBody, closes] using run
    | succ depth => rwa [skipHeadAndBody, if_neg opensNot, if_pos closes] at run
  case case4 depth last t ts opensNot closesNot inside ih =>
    rw [continued_cons, headEndsInName, kind_down, if_neg opensNot, if_neg closesNot, if_pos inside]
    refine ih (decided.imp_right fun ⟨rest, run⟩ => ⟨rest, ?_⟩)
    cases depth with
    | zero => contradiction
    | succ depth => rwa [skipHeadAndBody, if_neg opensNot, if_neg closesNot] at run
  case case5 opensNot closesNot outside body =>
    rw [continued_cons, headEndsInName, kind_down, if_neg opensNot, if_neg closesNot,
      if_neg outside, if_pos body]
  case case6 opensNot closesNot outside bodyNot equals =>
    rw [continued_cons, headEndsInName, kind_down, if_neg opensNot, if_neg closesNot,
      if_neg outside, if_neg bodyNot, if_pos equals]
  case case7 opensNot closesNot outside bodyNot equalsNot ends =>
    rw [continued_cons, headEndsInName, kind_down, if_neg opensNot, if_neg closesNot,
      if_neg outside, if_neg bodyNot, if_neg equalsNot, if_pos ends]
  case case8 depth last t ts opensNot closesNot outside bodyNot equalsNot endsNot ih =>
    rw [continued_cons, headEndsInName, kind_down, if_neg opensNot, if_neg closesNot,
      if_neg outside, if_neg bodyNot, if_neg equalsNot, if_neg endsNot]
    refine ih (decided.imp_right fun ⟨rest, run⟩ => ⟨rest, ?_⟩)
    obtain rfl : depth = 0 := Decidable.not_not.mp outside
    rwa [skipHeadAndBody, if_neg opensNot, if_neg bodyNot, if_neg endsNot] at run

theorem declaresVariable_continued {ts : List Token} (left : ts ≠ [])
    (decided : declaresVariable ts = true ∨ ∃ rest, skipHeadAndBody 0 ts = .ok rest) :
    declaresVariable (continued k more ts) = declaresVariable ts := by
  unfold declaresVariable at decided ⊢
  rw [atPunct_continued k more '(' left]
  cases opens : atPunct '(' ts with
  | false => rfl
  | true =>
    rw [opens] at decided
    exact headEndsInName_continued k more decided

theorem takeBases_continued {rounds rounds' : Nat} (enough : rounds ≤ rounds') {bases : List String}
    {ts rest : List Token} (run : takeBases rounds ts = .ok (bases, rest)) :
    rest.length < ts.length ∧ (rest ≠ [] →
      takeBases rounds' (continued k more ts) = .ok (bases, continued k more rest)) := by
  induction rounds generalizing rounds' bases ts with
  | zero => contradiction
  | succ rounds ih =>
    obtain ⟨rounds', rfl⟩ : ∃ r, rounds' = r + 1 := ⟨rounds' - 1, by omega⟩
    unfold takeBases at run ⊢
    obtain ⟨⟨base, ts₁⟩, named, run⟩ := bind_eq_ok.mp run
    obtain ⟨ts₂, skipped, run⟩ := bind_eq_ok.mp run
    obtain ⟨shorter₁, again₁⟩ := takePath_continued k more named
    obtain ⟨shorter₂, again₂⟩ := skipOptionalParens_continued k more skipped
    split at run
    · next comma =>
      obtain ⟨⟨others, ts₃⟩, onward, run⟩ := bind_eq_ok.mp run
      cases run
      obtain ⟨shorter₃, again₃⟩ := ih (Nat.le_of_succ_le_succ enough) onward
      rw [List.length_drop] at shorter₃
      have left₁ : ts₁ ≠ [] := List.ne_nil_of_length_pos (by omega)
      have left₂ : ts₂ ≠ [] := List.ne_nil_of_length_pos (by omega)
      refine ⟨by omega, fun left => ?_⟩
      refine bind_eq_ok.mpr ⟨_, again₁ left₁, bind_eq_ok.mpr ⟨_, again₂ left₂, ?_⟩⟩
      rw [atPunct_continued k more ',' left₂, if_pos comma, drop_continued k more left₂]
      exact bind_eq_ok.mpr ⟨_, again₃ left, rfl⟩
    · next none =>
      cases run
      refine ⟨by omega, fun left => ?_⟩
      have left₁ : ts₁ ≠ [] := List.ne_nil_of_length_pos
        (Nat.lt_of_lt_of_le (List.length_pos_iff.mpr left) shorter₂)
      refine bind_eq_ok.mpr ⟨_, again₁ left₁, bind_eq_ok.mpr ⟨_, again₂ left, ?_⟩⟩
      rw [atPunct_continued k more ',' left, if_neg none]

theorem takeOptionalBases_continued {bases : List String} {ts rest : List Token}
    (run : takeOptionalBases ts = .ok (bases, rest)) :
    rest.length ≤ ts.length ∧ (rest ≠ [] →
      takeOptionalBases (continued k more ts) = .ok (bases, continued k more rest)) := by
  unfold takeOptionalBases at run ⊢
  split at run
  · next is =>
    obtain ⟨shorter, again⟩ := takeBases_continued k more (length_le_continued k more ts) run
    rw [List.length_drop] at shorter
    have start : ts ≠ [] := List.ne_nil_of_length_pos (by omega)
    refine ⟨by omega, fun left => ?_⟩
    rw [peekWord?_continued k more start, if_pos is, drop_continued k more start, again left]
  · next none =>
    cases run
    refine ⟨Nat.le_refl _, fun left => ?_⟩
    rw [peekWord?_continued k more left, if_neg none]

theorem behindWord_continued {α β : Type} {read : List Token → Parsed (Taken α)} {down : α → α}
    (tell : α → β)
    (closed : ∀ {a : α} {ts rest : List Token}, read ts = .ok (a, rest) →
      rest.length < ts.length ∧ read (continued k more ts) = .ok (down a, continued k more rest))
    {b : β} {ts rest : List Token}
    (run : (read (ts.drop 1) >>= fun taken => .ok (tell taken.1, taken.2)) = .ok (b, rest)) :
    ∃ a, b = tell a ∧ rest.length < ts.length ∧
      (read ((continued k more ts).drop 1) >>= fun taken => .ok (tell taken.1, taken.2)) =
        .ok (tell (down a), continued k more rest) := by
  obtain ⟨⟨a, behind⟩, taken, run⟩ := bind_eq_ok.mp run
  obtain ⟨rfl, rfl⟩ := Prod.mk.inj (Except.ok.inj run)
  obtain ⟨shorter, again⟩ := closed taken
  rw [List.length_drop] at shorter
  have shorter' : behind.length < ts.length := by omega
  have start : ts ≠ [] := List.ne_nil_of_length_pos (by omega)
  refine ⟨a, rfl, shorter', ?_⟩
  rw [drop_continued k more start]
  exact bind_of_eq_ok again

theorem skipped_continued {β : Type} {skip : List Token → Parsed (List Token)} (nothing : β)
    (closed : ∀ {ts rest : List Token}, skip ts = .ok rest →
      rest.length < ts.length ∧ skip (continued k more ts) = .ok (continued k more rest))
    {b : β} {ts rest : List Token}
    (run : (skip ts >>= fun left => .ok (nothing, left)) = .ok (b, rest)) :
    b = nothing ∧ rest.length < ts.length ∧
      (skip (continued k more ts) >>= fun left => .ok (nothing, left)) =
        .ok (nothing, continued k more rest) := by
  obtain ⟨behind, skipped, run⟩ := bind_eq_ok.mp run
  cases run
  obtain ⟨shorter, again⟩ := closed skipped
  exact ⟨rfl, shorter, bind_of_eq_ok again⟩

theorem stored_continued {m : Members} {ts rest : List Token}
    (run : (takeVariable ts >>= fun taken => .ok (Members.ofVariable taken.1, taken.2)) =
      .ok (m, rest)) :
    rest.length < ts.length ∧
      (takeVariable (continued k more ts) >>= fun taken =>
        .ok (Members.ofVariable taken.1, taken.2)) = .ok (m.down k, continued k more rest) := by
  obtain ⟨⟨v, behind⟩, taken, run⟩ := bind_eq_ok.mp run
  cases run
  obtain ⟨shorter, again⟩ := takeVariable_continued k more taken
  exact ⟨shorter, bind_of_eq_ok again⟩

theorem takeMember_continued {word : String} {m : Members} {ts rest : List Token}
    (run : takeMember word ts = .ok (m, rest)) :
    rest.length < ts.length ∧
      takeMember word (continued k more ts) = .ok (m.down k, continued k more rest) := by
  unfold takeMember at run ⊢
  dsimp only at run ⊢
  split at run
  case h_1 =>
    split at run
    · next declares =>
      obtain ⟨shorter, again⟩ := stored_continued k more run
      have start : ts ≠ [] := List.ne_nil_of_length_pos (by omega)
      have behind : ts.drop 1 ≠ [] := by
        intro none
        rw [none] at declares
        contradiction
      refine ⟨shorter, ?_⟩
      rw [drop_continued k more start, declaresVariable_continued k more behind (.inl declares),
        if_pos declares]
      exact again
    · next skips =>
      have run' := run
      obtain ⟨rest', skipped, _⟩ := bind_eq_ok.mp run'
      have shorter' := (skipHeadAndBody_continued k more skipped).1
      have behind : ts.drop 1 ≠ [] := List.ne_nil_of_length_pos (by omega)
      have start : ts ≠ [] := by
        rintro rfl
        contradiction
      obtain ⟨rfl, shorter, again⟩ :=
        skipped_continued k more Members.none (skipFunction_continued k more) run
      refine ⟨shorter, ?_⟩
      rw [drop_continued k more start,
        declaresVariable_continued k more behind (.inr ⟨rest', skipped⟩), if_neg skips]
      exact again
  case h_2 | h_3 | h_4 | h_5 =>
    obtain ⟨rfl, shorter, again⟩ :=
      skipped_continued k more Members.none (skipFunction_continued k more) run
    exact ⟨shorter, again⟩
  case h_6 | h_7 | h_8 =>
    obtain ⟨rfl, shorter, again⟩ :=
      skipped_continued k more Members.none (skipStatement_continued k more) run
    exact ⟨shorter, again⟩
  case h_9 =>
    obtain ⟨s, rfl, shorter, again⟩ := behindWord_continued k more
      (fun s => Members.ofTypes (.ofStruct s)) (takeStruct_continued k more) run
    exact ⟨shorter, again⟩
  case h_10 =>
    obtain ⟨e, rfl, shorter, again⟩ := behindWord_continued k more
      (fun e => Members.ofTypes (.ofEnum e)) (takeEnum_continued k more) run
    exact ⟨shorter, again⟩
  case h_11 =>
    obtain ⟨v, rfl, shorter, again⟩ := behindWord_continued k more
      (fun v => Members.ofTypes (.ofValueType v)) (takeValueType_continued k more) run
    exact ⟨shorter, again⟩
  case h_12 => exact stored_continued k more run

theorem takeMembers_continued {rounds rounds' : Nat} (enough : rounds ≤ rounds') {m : Members}
    {ts rest : List Token} (run : takeMembers rounds ts = .ok (m, rest)) :
    rest.length < ts.length ∧
      takeMembers rounds' (continued k more ts) = .ok (m.down k, continued k more rest) := by
  induction rounds generalizing rounds' m ts with
  | zero => cases ts <;> contradiction
  | succ rounds ih =>
    cases ts with
    | nil => contradiction
    | cons t ts =>
      obtain ⟨rounds', rfl⟩ : ∃ r, rounds' = r + 1 := ⟨rounds' - 1, by omega⟩
      have enough' : rounds ≤ rounds' := Nat.le_of_succ_le_succ enough
      rw [continued_cons]
      unfold takeMembers at run ⊢
      rw [kind_down]
      split at run
      · next c punct =>
        split at run
        · next closes =>
          cases run
          rw [if_pos closes]
          exact ⟨Nat.lt_succ_self _, rfl⟩
        · next stray =>
          rw [if_neg stray]
          exact (ih enough' run).imp_left Nat.lt_succ_of_lt
      · next word kind =>
        obtain ⟨⟨first, ts₁⟩, taken, run⟩ := bind_eq_ok.mp run
        obtain ⟨⟨others, ts₂⟩, onward, run⟩ := bind_eq_ok.mp run
        obtain ⟨rfl, rfl⟩ := Prod.mk.inj (Except.ok.inj run)
        obtain ⟨shorter₁, again₁⟩ := takeMember_continued k more taken
        obtain ⟨shorter₂, again₂⟩ := ih enough' onward
        refine ⟨Nat.lt_trans shorter₂ shorter₁, ?_⟩
        rw [members_down_append]
        exact bind_eq_ok.mpr ⟨_, again₁, bind_eq_ok.mpr ⟨_, again₂, rfl⟩⟩
      · contradiction

theorem takeContract_continued {kind : ContractKind} {u : SourceUnit} {ts rest : List Token}
    (run : takeContract kind ts = .ok (u, rest)) :
    rest.length < ts.length ∧
      takeContract kind (continued k more ts) = .ok (u.down k, continued k more rest) := by
  obtain ⟨⟨name, ts₁⟩, named, run⟩ := bind_eq_ok.mp run
  obtain ⟨⟨bases, ts₂⟩, based, run⟩ := bind_eq_ok.mp run
  obtain ⟨ts₃, opened, run⟩ := bind_eq_ok.mp run
  obtain ⟨⟨members, ts₄⟩, listed, run⟩ := bind_eq_ok.mp run
  obtain ⟨rfl, rfl⟩ := Prod.mk.inj (Except.ok.inj run)
  obtain ⟨shorter₁, again₁⟩ := takeWord_continued k more named
  obtain ⟨shorter₂, again₂⟩ := takeOptionalBases_continued k more based
  obtain ⟨shorter₃, again₃⟩ := takeKind_continued k more opened
  obtain ⟨shorter₄, again₄⟩ := takeMembers_continued k more (length_le_continued k more ts₃) listed
  have left₂ : ts₂ ≠ [] := List.ne_nil_of_length_pos (by omega)
  refine ⟨by omega, ?_⟩
  rw [down_append]
  exact bind_eq_ok.mpr ⟨_, again₁, bind_eq_ok.mpr ⟨_, again₂ left₂,
    bind_eq_ok.mpr ⟨_, again₃, bind_eq_ok.mpr ⟨_, again₄, rfl⟩⟩⟩⟩

theorem takeItem_continued {word : String} {u : SourceUnit} {ts rest : List Token}
    (run : takeItem word ts = .ok (u, rest)) :
    rest.length < ts.length ∧
      takeItem word (continued k more ts) = .ok (u.down k, continued k more rest) := by
  unfold takeItem at run ⊢
  dsimp only at run ⊢
  split at run
  case h_1 | h_2 | h_3 | h_4 | h_5 =>
    obtain ⟨rfl, shorter, again⟩ :=
      skipped_continued k more SourceUnit.empty (skipStatement_continued k more) run
    exact ⟨shorter, again⟩
  case h_6 =>
    obtain ⟨rfl, shorter, again⟩ :=
      skipped_continued k more SourceUnit.empty (skipFunction_continued k more) run
    exact ⟨shorter, again⟩
  case h_7 =>
    obtain ⟨ts₁, keyword, run⟩ := bind_eq_ok.mp run
    obtain ⟨shorter₁, again₁⟩ := takeKind_continued k more keyword
    obtain ⟨shorter₂, again₂⟩ := takeContract_continued k more run
    rw [List.length_drop] at shorter₁
    have start : ts ≠ [] := List.ne_nil_of_length_pos (by omega)
    refine ⟨by omega, ?_⟩
    rw [drop_continued k more start]
    exact bind_eq_ok.mpr ⟨_, again₁, again₂⟩
  case h_8 | h_9 | h_10 =>
    obtain ⟨shorter, again⟩ := takeContract_continued k more run
    rw [List.length_drop] at shorter
    have start : ts ≠ [] := List.ne_nil_of_length_pos (by omega)
    refine ⟨by omega, ?_⟩
    rw [drop_continued k more start, again]
  case h_11 =>
    obtain ⟨s, rfl, shorter, again⟩ :=
      behindWord_continued k more SourceUnit.ofStruct (takeStruct_continued k more) run
    exact ⟨shorter, again⟩
  case h_12 =>
    obtain ⟨e, rfl, shorter, again⟩ :=
      behindWord_continued k more SourceUnit.ofEnum (takeEnum_continued k more) run
    exact ⟨shorter, again⟩
  case h_13 =>
    obtain ⟨v, rfl, shorter, again⟩ :=
      behindWord_continued k more SourceUnit.ofValueType (takeValueType_continued k more) run
    exact ⟨shorter, again⟩
  case h_14 =>
    obtain ⟨⟨v, behind⟩, taken, run⟩ := bind_eq_ok.mp run
    obtain ⟨rfl, rfl⟩ := Prod.mk.inj (Except.ok.inj run)
    obtain ⟨shorter, again⟩ := takeVariable_continued k more taken
    refine ⟨shorter, ?_⟩
    rw [ofVariable_down]
    exact bind_of_eq_ok again

theorem takeItems_enough {rounds rounds' : Nat} {ts : List Token} (enough : ts.length ≤ rounds)
    (enough' : ts.length ≤ rounds') : takeItems rounds ts = takeItems rounds' ts := by
  induction rounds generalizing rounds' ts with
  | zero =>
    obtain rfl := List.length_eq_zero_iff.mp (Nat.le_zero.mp enough)
    cases rounds' <;> rfl
  | succ rounds ih =>
    cases ts with
    | nil => cases rounds' <;> rfl
    | cons t ts =>
      obtain ⟨rounds', rfl⟩ : ∃ r, rounds' = r + 1 :=
        ⟨rounds' - 1, by rw [List.length_cons] at enough'; omega⟩
      have less : ts.length ≤ rounds := Nat.le_of_succ_le_succ enough
      have less' : ts.length ≤ rounds' := Nat.le_of_succ_le_succ enough'
      rw [takeItems, takeItems]
      split
      · exact ih less less'
      · next word _ =>
        cases first : takeItem word (t :: ts) with
        | error e => rfl
        | ok taken =>
          obtain ⟨u, rest⟩ := taken
          have shorter := (takeItem_continued 0 [] first).1
          rw [List.length_cons] at shorter
          have same : takeItems rounds rest = takeItems rounds' rest := ih (by omega) (by omega)
          rw [bind_of_eq_ok rfl, bind_of_eq_ok rfl]
          dsimp only
          rw [same]

theorem takeItems_nil (rounds : Nat) : takeItems rounds [] = .ok .empty := by
  cases rounds <;> rfl

theorem takeItems_more {rounds : Nat} (enough : more.length ≤ rounds) :
    takeItems rounds more =
      SourceUnit.ofTokens more >>= fun v => .ok (SourceUnit.empty.down k ++ v) :=
  (takeItems_enough enough (Nat.le_refl _)).trans (bind_pure _).symm

/-- The declarations of a source that goes on are its own, and then those of what follows. -/
theorem takeItems_continued {rounds rounds' : Nat} {u : SourceUnit} {ts : List Token}
    (enough : ts.length ≤ rounds) (enough' : ts.length + more.length ≤ rounds')
    (run : takeItems rounds ts = .ok u) :
    takeItems rounds' (continued k more ts) =
      SourceUnit.ofTokens more >>= fun v => .ok (u.down k ++ v) := by
  induction rounds generalizing rounds' u ts with
  | zero =>
    obtain rfl := List.length_eq_zero_iff.mp (Nat.le_zero.mp enough)
    obtain rfl := Except.ok.inj ((takeItems_nil 0).symm.trans run)
    exact takeItems_more k more (by simpa using enough')
  | succ rounds ih =>
    cases ts with
    | nil =>
      obtain rfl := Except.ok.inj ((takeItems_nil _).symm.trans run)
      exact takeItems_more k more (by simpa using enough')
    | cons t ts =>
      rw [List.length_cons] at enough enough'
      obtain ⟨rounds', rfl⟩ : ∃ r, rounds' = r + 1 := ⟨rounds' - 1, by omega⟩
      rw [takeItems] at run
      rw [continued_cons, takeItems, word?_down]
      split at run
      · next none => exact ih (by omega) (by omega) run
      · next word _ =>
        obtain ⟨⟨first, rest⟩, taken, run⟩ := bind_eq_ok.mp run
        obtain ⟨others, onward, run⟩ := bind_eq_ok.mp run
        obtain rfl := Except.ok.inj run
        obtain ⟨shorter, again⟩ := takeItem_continued k more taken
        rw [List.length_cons] at shorter
        have behind := @ih rounds' others rest (by omega) (by omega) onward
        refine (bind_of_eq_ok again).trans ?_
        dsimp only
        rw [behind, bind_assoc, down_append]
        simp only [append_assoc]
        rfl

end

structure SourceFile where
  content : String
  tokens : List Token
  declared : SourceUnit
  tokenized : tokenize content.toList = .ok tokens
  parsed : SourceUnit.ofTokens tokens = .ok declared

namespace SourceFile

def height (f : SourceFile) : Nat :=
  f.content.toList.count '\n' + 1

def tokensBelow (k : Nat) : List SourceFile → List Token
  | [] => []
  | f :: fs => f.tokens.map (Token.down k) ++ tokensBelow (k + f.height) fs

/-- The declarations of files, the first of which begins below some lines. -/
def declaredBelow (k : Nat) : List SourceFile → SourceUnit
  | [] => .empty
  | f :: fs => f.declared.down k ++ declaredBelow (k + f.height) fs

theorem ofTokens_tokensBelow (k : Nat) (files : List SourceFile) :
    SourceUnit.ofTokens (tokensBelow k files) = .ok (declaredBelow k files) := by
  induction files generalizing k with
  | nil => rfl
  | cons f fs ih =>
    have parts : tokensBelow k (f :: fs) = continued k (tokensBelow (k + f.height) fs) f.tokens := rfl
    have length : (tokensBelow k (f :: fs)).length =
        f.tokens.length + (tokensBelow (k + f.height) fs).length := by
      rw [parts, continued, List.length_append, List.length_map]
    rw [SourceUnit.ofTokens, length, parts,
      takeItems_continued k _ (Nat.le_refl _) (Nat.le_refl _) f.parsed, ih]
    rfl

end SourceFile

end ContractRegistry.Source
