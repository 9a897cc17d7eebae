import ContractRegistry.Proofs.Outcome
import ContractRegistry.Source.Parser

/-!
Readers in a source that goes on.

A reader may find its tokens further down, with others behind them. One that stops behind a token of its
own takes the same tokens there. One that looks at the next token before it stops does so too, unless
it has come to the end: then there is a next token now, and it may go on.
-/
namespace ContractRegistry.Source

def Token.down (k : Nat) (t : Token) : Token :=
  { t with line := t.line + k }

def continued (k : Nat) (more ts : List Token) : List Token :=
  ts.map (Token.down k) ++ more

def TypeExpr.down (k : Nat) : TypeExpr → TypeExpr
  | .named name line => .named name (line + k)
  | .mapping key value => .mapping (key.down k) (value.down k)
  | .array element length line =>
    .array (element.down k) (length.map (List.map (Token.down k))) (line + k)
  | .function external => .function external

def OpenBracket.down (k : Nat) (b : OpenBracket) : OpenBracket :=
  ⟨b.line + k, b.depth, b.length.map (Token.down k)⟩

section
variable (k : Nat) (more : List Token)

@[simp] theorem kind_down (t : Token) : (t.down k).kind = t.kind := rfl

@[simp] theorem word?_down (t : Token) : (t.down k).word? = t.word? := rfl

theorem continued_cons (t : Token) (ts : List Token) :
    continued k more (t :: ts) = t.down k :: continued k more ts := rfl

theorem length_le_continued (ts : List Token) : ts.length ≤ (continued k more ts).length := by
  simp [continued]

theorem atPunct_continued {ts : List Token} (c : Char) (left : ts ≠ []) :
    atPunct c (continued k more ts) = atPunct c ts := by
  cases ts with
  | nil => contradiction
  | cons t ts => rfl

theorem peekWord?_continued {ts : List Token} (left : ts ≠ []) :
    peekWord? (continued k more ts) = peekWord? ts := by
  cases ts with
  | nil => contradiction
  | cons t ts => rfl

theorem lineOf_continued {ts : List Token} (left : ts ≠ []) :
    lineOf (continued k more ts) = lineOf ts + k := by
  cases ts with
  | nil => contradiction
  | cons t ts => rfl

theorem drop_continued {ts : List Token} (left : ts ≠ []) :
    (continued k more ts).drop 1 = continued k more (ts.drop 1) := by
  cases ts with
  | nil => contradiction
  | cons t ts => rfl

theorem skipWord_continued {ts : List Token} (left : ts ≠ []) :
    skipWord (continued k more ts) = continued k more (skipWord ts) := by
  unfold skipWord
  rw [peekWord?_continued k more left, drop_continued k more left]
  split <;> rfl

theorem skipThisWord_continued {ts : List Token} (word : String) (left : ts ≠ []) :
    skipThisWord word (continued k more ts) = continued k more (skipThisWord word ts) := by
  unfold skipThisWord
  rw [peekWord?_continued k more left, drop_continued k more left]
  split <;> rfl

theorem length_skipWord_le (ts : List Token) : (skipWord ts).length ≤ ts.length := by
  unfold skipWord
  split <;> simp

theorem length_skipThisWord_le (word : String) (ts : List Token) :
    (skipThisWord word ts).length ≤ ts.length := by
  unfold skipThisWord
  split <;> simp

theorem takeKind_continued {kind : TokenKind} {expected : String} {ts rest : List Token}
    (run : takeKind kind expected ts = .ok rest) :
    rest.length < ts.length ∧
      takeKind kind expected (continued k more ts) = .ok (continued k more rest) := by
  cases ts with
  | nil => contradiction
  | cons t ts =>
    rw [takeKind] at run
    split at run
    · next same =>
      obtain rfl := Except.ok.inj run
      exact ⟨Nat.lt_succ_self _, if_pos same⟩
    · contradiction

theorem takeWord_continued {expected text : String} {ts rest : List Token}
    (run : takeWord expected ts = .ok (text, rest)) :
    rest.length < ts.length ∧
      takeWord expected (continued k more ts) = .ok (text, continued k more rest) := by
  cases ts with
  | nil => contradiction
  | cons t ts =>
    rw [takeWord] at run
    split at run
    · next word =>
      cases run
      refine ⟨Nat.lt_succ_self _, ?_⟩
      rw [continued_cons, takeWord, word?_down, word]
    · contradiction

theorem upToSemicolon_continued {depth : Nat} {ts taken rest : List Token}
    (run : upToSemicolon depth ts = .ok (taken, rest)) :
    rest.length < ts.length ∧ upToSemicolon depth (continued k more ts) =
      .ok (taken.map (Token.down k), continued k more rest) := by
  induction ts generalizing depth taken with
  | nil =>
    unfold upToSemicolon at run
    contradiction
  | cons t ts ih =>
    rw [continued_cons]
    unfold upToSemicolon at run ⊢
    rw [kind_down]
    split at run
    · next ends =>
      cases run
      rw [if_pos ends]
      exact ⟨Nat.lt_succ_self _, rfl⟩
    · next goes =>
      obtain ⟨⟨inner, left⟩, first, run⟩ := bind_eq_ok.mp run
      cases run
      obtain ⟨shorter, again⟩ := ih first
      rw [if_neg goes]
      exact ⟨Nat.lt_succ_of_lt shorter, bind_eq_ok.mpr ⟨_, again, rfl⟩⟩

theorem skipStatement_continued {ts rest : List Token} (run : skipStatement ts = .ok rest) :
    rest.length < ts.length ∧
      skipStatement (continued k more ts) = .ok (continued k more rest) := by
  obtain ⟨⟨taken, left⟩, first, run⟩ := bind_eq_ok.mp run
  cases run
  obtain ⟨shorter, again⟩ := upToSemicolon_continued k more first
  exact ⟨shorter, bind_eq_ok.mpr ⟨_, again, rfl⟩⟩

theorem skipPastClosing_continued {opening closing : Char} {depth : Nat} {ts rest : List Token}
    (run : skipPastClosing opening closing depth ts = .ok rest) :
    rest.length < ts.length ∧
      skipPastClosing opening closing depth (continued k more ts) = .ok (continued k more rest) := by
  induction ts generalizing depth with
  | nil =>
    unfold skipPastClosing at run
    contradiction
  | cons t ts ih =>
    rw [continued_cons]
    unfold skipPastClosing at run ⊢
    rw [kind_down]
    split at run
    · next opens =>
      rw [if_pos opens]
      exact (ih run).imp_left Nat.lt_succ_of_lt
    next inside =>
    rw [if_neg inside]
    split at run
    · next closes =>
      rw [if_pos closes]
      cases depth with
      | zero =>
        cases run
        exact ⟨Nat.lt_succ_self _, rfl⟩
      | succ depth => exact (ih run).imp_left Nat.lt_succ_of_lt
    · next other =>
      rw [if_neg other]
      exact (ih run).imp_left Nat.lt_succ_of_lt

theorem skipParens_continued {ts rest : List Token} (run : skipParens ts = .ok rest) :
    rest.length < ts.length ∧ skipParens (continued k more ts) = .ok (continued k more rest) := by
  obtain ⟨inner, first, run⟩ := bind_eq_ok.mp run
  obtain ⟨shorter, again⟩ := takeKind_continued k more first
  obtain ⟨shorter', again'⟩ := skipPastClosing_continued k more run
  exact ⟨Nat.lt_trans shorter' shorter, bind_eq_ok.mpr ⟨_, again, again'⟩⟩

theorem skipOptionalParens_continued {ts rest : List Token}
    (run : skipOptionalParens ts = .ok rest) :
    rest.length ≤ ts.length ∧ (rest ≠ [] →
      skipOptionalParens (continued k more ts) = .ok (continued k more rest)) := by
  unfold skipOptionalParens at run ⊢
  split at run
  · next opens =>
    obtain ⟨shorter, again⟩ := skipParens_continued k more run
    refine ⟨Nat.le_of_lt shorter, fun _ => ?_⟩
    have left : ts ≠ [] := List.ne_nil_of_length_pos (by omega)
    rw [atPunct_continued k more '(' left, if_pos opens, again]
  · next none =>
    cases run
    refine ⟨Nat.le_refl _, fun left => ?_⟩
    rw [atPunct_continued k more '(' left, if_neg none]

theorem skipHeadAndBody_continued {depth : Nat} {ts rest : List Token}
    (run : skipHeadAndBody depth ts = .ok rest) :
    rest.length < ts.length ∧
      skipHeadAndBody depth (continued k more ts) = .ok (continued k more rest) := by
  induction ts generalizing depth with
  | nil => cases depth <;> contradiction
  | cons t ts ih =>
    rw [continued_cons]
    cases depth with
    | zero =>
      unfold skipHeadAndBody at run ⊢
      rw [kind_down]
      split at run
      · next opens =>
        rw [if_pos opens]
        exact (ih run).imp_left Nat.lt_succ_of_lt
      next opensNot =>
      rw [if_neg opensNot]
      split at run
      · next body =>
        rw [if_pos body]
        exact (skipPastClosing_continued k more run).imp_left Nat.lt_succ_of_lt
      next bodyNot =>
      rw [if_neg bodyNot]
      split at run
      · next ends =>
        cases run
        rw [if_pos ends]
        exact ⟨Nat.lt_succ_self _, rfl⟩
      · next goes =>
        rw [if_neg goes]
        exact (ih run).imp_left Nat.lt_succ_of_lt
    | succ depth =>
      unfold skipHeadAndBody at run ⊢
      rw [kind_down]
      split at run
      · next opens =>
        rw [if_pos opens]
        exact (ih run).imp_left Nat.lt_succ_of_lt
      next opensNot =>
      rw [if_neg opensNot]
      split at run
      · next closes =>
        rw [if_pos closes]
        exact (ih run).imp_left Nat.lt_succ_of_lt
      · next inside =>
        rw [if_neg inside]
        exact (ih run).imp_left Nat.lt_succ_of_lt

theorem skipFunction_continued {ts rest : List Token} (run : skipFunction ts = .ok rest) :
    rest.length < ts.length ∧ skipFunction (continued k more ts) = .ok (continued k more rest) := by
  obtain ⟨shorter, again⟩ := skipHeadAndBody_continued k more run
  rw [List.length_drop] at shorter
  have left : ts ≠ [] := List.ne_nil_of_length_pos (by omega)
  refine ⟨by omega, ?_⟩
  rw [skipFunction, drop_continued k more left, again]

theorem lastPart_continued {name last : String} {ts rest : List Token}
    (run : lastPart name ts = .ok (last, rest)) :
    rest.length ≤ ts.length ∧ (rest ≠ [] →
      lastPart name (continued k more ts) = .ok (last, continued k more rest)) := by
  fun_induction lastPart name ts with
  | case1 name =>
    cases run
    exact ⟨Nat.le_refl _, fun left => absurd rfl left⟩
  | case2 name t dot => contradiction
  | case3 name t other =>
    cases run
    refine ⟨Nat.le_refl _, fun _ => ?_⟩
    cases more with
    | nil =>
      rw [continued_cons, continued, List.map_nil, List.append_nil, lastPart, kind_down, if_neg other]
    | cons u us =>
      rw [continued_cons, continued, List.map_nil, List.nil_append, lastPart, kind_down, if_neg other]
  | case4 name t u ts dot part word ih =>
    obtain ⟨shorter, again⟩ := ih run
    refine ⟨by simp only [List.length_cons]; omega, fun left => ?_⟩
    rw [continued_cons, continued_cons, lastPart, kind_down, if_pos dot, word?_down, word]
    exact again left
  | case5 name t u ts dot word => contradiction
  | case6 name t u ts other =>
    cases run
    refine ⟨Nat.le_refl _, fun _ => ?_⟩
    rw [continued_cons, continued_cons, lastPart, kind_down, if_neg other]

theorem takePath_continued {name : String} {ts rest : List Token}
    (run : takePath ts = .ok (name, rest)) :
    rest.length < ts.length ∧ (rest ≠ [] →
      takePath (continued k more ts) = .ok (name, continued k more rest)) := by
  obtain ⟨⟨first, inner⟩, taken, run⟩ := bind_eq_ok.mp run
  obtain ⟨shorter, again⟩ := takeWord_continued k more taken
  obtain ⟨shorter', again'⟩ := lastPart_continued k more run
  refine ⟨Nat.lt_of_le_of_lt shorter' shorter, fun left => ?_⟩
  exact bind_eq_ok.mpr ⟨_, again, again' left⟩

theorem close_down (b : OpenBracket) (ty : TypeExpr) :
    (b.down k).close (ty.down k) = (b.close ty).down k := by
  by_cases dynamic : b.length = [] <;> simp [OpenBracket.close, OpenBracket.down, TypeExpr.down, dynamic]

theorem takeBrackets_continued {ty whole : TypeExpr} {b : Option OpenBracket} {ts rest : List Token}
    (run : takeBrackets ty b ts = .ok (whole, rest)) :
    rest.length ≤ ts.length ∧ (rest ≠ [] →
      takeBrackets (ty.down k) (b.map (OpenBracket.down k)) (continued k more ts) =
        .ok (whole.down k, continued k more rest)) := by
  fun_induction takeBrackets ty b ts with
  | case1 ty =>
    cases run
    exact ⟨Nat.le_refl _, fun left => absurd rfl left⟩
  | case2 ty b => contradiction
  | case3 ty t ts opens ih =>
    obtain ⟨shorter, again⟩ := ih run
    refine ⟨Nat.le_succ_of_le shorter, fun left => ?_⟩
    rw [continued_cons, Option.map_none, takeBrackets, kind_down, if_pos opens]
    exact again left
  | case4 ty t ts other =>
    cases run
    refine ⟨Nat.le_refl _, fun _ => ?_⟩
    rw [continued_cons, Option.map_none, takeBrackets, kind_down, if_neg other]
  | case5 ty b t ts opens ih =>
    obtain ⟨shorter, again⟩ := ih run
    refine ⟨Nat.le_succ_of_le shorter, fun left => ?_⟩
    rw [continued_cons, Option.map_some, takeBrackets, kind_down, if_pos opens]
    exact again left
  | case6 ty b t ts opensNot closes outer ih =>
    obtain ⟨shorter, again⟩ := ih run
    refine ⟨Nat.le_succ_of_le shorter, fun left => ?_⟩
    rw [continued_cons, Option.map_some, takeBrackets, kind_down, if_neg opensNot, if_pos closes]
    rw [if_pos (show (b.down k).depth = 0 from outer), close_down]
    exact again left
  | case7 ty b t ts opensNot closes inner ih =>
    obtain ⟨shorter, again⟩ := ih run
    refine ⟨Nat.le_succ_of_le shorter, fun left => ?_⟩
    rw [continued_cons, Option.map_some, takeBrackets, kind_down, if_neg opensNot, if_pos closes]
    rw [if_neg (show ¬ (b.down k).depth = 0 from inner)]
    exact again left
  | case8 ty b t ts opensNot closesNot ih =>
    obtain ⟨shorter, again⟩ := ih run
    refine ⟨Nat.le_succ_of_le shorter, fun left => ?_⟩
    rw [continued_cons, Option.map_some, takeBrackets, kind_down, if_neg opensNot, if_neg closesNot]
    exact again left

theorem takeBrackets_behind {first ty : TypeExpr} {behind rest : List Token} {n : Nat}
    {whole : Parsed (Taken TypeExpr)} (brackets : takeBrackets first none behind = .ok (ty, rest))
    (shorter : behind.length < n)
    (front : behind ≠ [] → whole = takeBrackets (first.down k) none (continued k more behind)) :
    rest.length < n ∧ (rest ≠ [] → whole = .ok (ty.down k, continued k more rest)) := by
  obtain ⟨shorter', again⟩ := takeBrackets_continued k more brackets
  refine ⟨Nat.lt_of_le_of_lt shorter' shorter, fun left => ?_⟩
  have before : behind ≠ [] := List.ne_nil_of_length_pos
    (Nat.lt_of_lt_of_le (List.length_pos_iff.mpr left) shorter')
  exact (front before).trans (again left)

theorem takeFunctionWords_continued {external result : Bool} {depth : Nat} {ts rest : List Token}
    (run : takeFunctionWords external depth ts = .ok (result, rest)) :
    rest.length ≤ ts.length ∧ (rest ≠ [] →
      takeFunctionWords external depth (continued k more ts) =
        .ok (result, continued k more rest)) := by
  fun_induction takeFunctionWords external depth ts
  case case1 =>
    cases run
    exact ⟨Nat.le_refl _, fun left => absurd rfl left⟩
  case case2 | case8 | case10 => contradiction
  case case3 word ih | case4 word ih | case5 word ih | case6 word ih | case7 word ih =>
    obtain ⟨shorter, again⟩ := ih run
    refine ⟨Nat.le_succ_of_le shorter, fun left => ?_⟩
    rw [continued_cons, takeFunctionWords.eq_def]
    simp only [word?_down, word]
    exact again left
  case case9 word u us opens ih =>
    obtain ⟨shorter, again⟩ := ih run
    refine ⟨by simp only [List.length_cons]; omega, fun left => ?_⟩
    rw [continued_cons, continued_cons, takeFunctionWords.eq_def]
    simp only [word?_down, word]
    exact (if_pos opens).trans (again left)
  case case11 =>
    cases run
    refine ⟨Nat.le_refl _, fun _ => ?_⟩
    rw [continued_cons, takeFunctionWords.eq_def]
    simp only [word?_down]
  case case12 opens ih =>
    obtain ⟨shorter, again⟩ := ih run
    refine ⟨Nat.le_succ_of_le shorter, fun left => ?_⟩
    rw [continued_cons, takeFunctionWords, kind_down, if_pos opens]
    exact again left
  case case13 opensNot closes ih =>
    obtain ⟨shorter, again⟩ := ih run
    refine ⟨Nat.le_succ_of_le shorter, fun left => ?_⟩
    rw [continued_cons, takeFunctionWords, kind_down, if_neg opensNot, if_pos closes]
    exact again left
  case case14 opensNot closesNot ih =>
    obtain ⟨shorter, again⟩ := ih run
    refine ⟨Nat.le_succ_of_le shorter, fun left => ?_⟩
    rw [continued_cons, takeFunctionWords, kind_down, if_neg opensNot, if_neg closesNot]
    exact again left

theorem takeFunctionType_continued {ty : TypeExpr} {ts rest : List Token}
    (run : takeFunctionType ts = .ok (ty, rest)) :
    rest.length < ts.length ∧ (rest ≠ [] →
      takeFunctionType (continued k more ts) = .ok (ty.down k, continued k more rest)) := by
  obtain ⟨inner, first, run⟩ := bind_eq_ok.mp run
  obtain ⟨⟨external, left⟩, words, run⟩ := bind_eq_ok.mp run
  cases run
  obtain ⟨shorter, again⟩ := skipParens_continued k more first
  obtain ⟨shorter', again'⟩ := takeFunctionWords_continued k more words
  refine ⟨Nat.lt_of_le_of_lt shorter' shorter, fun left => ?_⟩
  exact bind_eq_ok.mpr ⟨_, again, bind_eq_ok.mpr ⟨_, again' left, rfl⟩⟩

theorem takeNamedType_continued {line : Nat} {ty : TypeExpr} {ts rest : List Token}
    (run : takeNamedType line ts = .ok (ty, rest)) :
    rest.length < ts.length ∧ (rest ≠ [] →
      takeNamedType (line + k) (continued k more ts) = .ok (ty.down k, continued k more rest)) := by
  obtain ⟨⟨name, behind⟩, path, run⟩ := bind_eq_ok.mp run
  cases run
  obtain ⟨shorter, again⟩ := takePath_continued k more path
  have fewer := length_skipThisWord_le "payable" behind
  refine ⟨by split <;> omega, fun left => ?_⟩
  have before : behind ≠ [] := by
    rintro rfl
    exact left (by split <;> rfl)
  refine bind_eq_ok.mpr ⟨_, again before, ?_⟩
  dsimp only
  rw [skipThisWord_continued k more "payable" before, apply_ite (continued k more)]
  rfl

/-- A word in front can be dropped again in a continued source when something was taken behind it. -/
theorem takeBehindWord_continued {kind : TokenKind} {expected : String} {ts rest : List Token}
    (run : takeKind kind expected (skipWord ts) = .ok rest) :
    rest.length < ts.length ∧ ts ≠ [] ∧
      takeKind kind expected (skipWord (continued k more ts)) = .ok (continued k more rest) := by
  obtain ⟨shorter, again⟩ := takeKind_continued k more run
  have fewer := length_skipWord_le ts
  have left : ts ≠ [] := List.ne_nil_of_length_pos (by omega)
  refine ⟨by omega, left, ?_⟩
  rw [skipWord_continued k more left, again]

theorem takeType_continued {depth depth' : Nat} (enough : depth ≤ depth') {ty : TypeExpr}
    {ts rest : List Token} (run : takeType depth ts = .ok (ty, rest)) :
    rest.length < ts.length ∧ (rest ≠ [] →
      takeType depth' (continued k more ts) = .ok (ty.down k, continued k more rest)) := by
  induction depth generalizing depth' ty ts rest with
  | zero => cases ts <;> contradiction
  | succ depth ih =>
    cases ts with
    | nil => contradiction
    | cons t ts =>
      obtain ⟨depth', rfl⟩ : ∃ d, depth' = d + 1 := ⟨depth' - 1, by omega⟩
      have enough' : depth ≤ depth' := Nat.le_of_succ_le_succ enough
      rw [continued_cons, takeType.eq_def]
      simp only [word?_down]
      unfold takeType at run
      split at run
      · next word =>
        obtain ⟨ts₁, opened, run⟩ := bind_eq_ok.mp run
        obtain ⟨⟨key, ts₂⟩, keyed, run⟩ := bind_eq_ok.mp run
        obtain ⟨ts₃, arrow, run⟩ := bind_eq_ok.mp run
        obtain ⟨⟨value, ts₄⟩, valued, run⟩ := bind_eq_ok.mp run
        obtain ⟨ts₅, closed, brackets⟩ := bind_eq_ok.mp run
        obtain ⟨shorter₁, again₁⟩ := takeKind_continued k more opened
        obtain ⟨shorter₂, again₂⟩ := ih enough' keyed
        obtain ⟨shorter₃, left₂, again₃⟩ := takeBehindWord_continued k more arrow
        obtain ⟨shorter₄, again₄⟩ := ih enough' valued
        obtain ⟨shorter₅, left₄, again₅⟩ := takeBehindWord_continued k more closed
        refine takeBrackets_behind k more brackets (by simp only [List.length_cons]; omega) fun _ => ?_
        refine (bind_of_eq_ok again₁).trans ((bind_of_eq_ok (again₂ left₂)).trans ?_)
        refine (bind_of_eq_ok again₃).trans ((bind_of_eq_ok (again₄ left₄)).trans ?_)
        exact bind_of_eq_ok again₅
      · next word =>
        obtain ⟨⟨first, behind⟩, bare, brackets⟩ := bind_eq_ok.mp run
        obtain ⟨shorter, again⟩ := takeFunctionType_continued k more bare
        refine takeBrackets_behind k more brackets (Nat.lt_succ_of_lt shorter) fun left => ?_
        exact bind_of_eq_ok (again left)
      · next text word _ _ =>
        obtain ⟨⟨first, behind⟩, bare, brackets⟩ := bind_eq_ok.mp run
        obtain ⟨shorter, again⟩ := takeNamedType_continued k more bare
        refine takeBrackets_behind k more brackets shorter fun left => ?_
        exact bind_of_eq_ok (again left)
      · contradiction

theorem typeExpr_continued {ty : TypeExpr} {ts rest : List Token}
    (run : typeExpr ts = .ok (ty, rest)) :
    rest.length < ts.length ∧ (rest ≠ [] →
      typeExpr (continued k more ts) = .ok (ty.down k, continued k more rest)) :=
  takeType_continued k more (length_le_continued k more ts) run

end

end ContractRegistry.Source
