import ContractRegistry.Proofs.Source.Stacked

/-!
Readers in a source that is cut.

When a reader leaves at least some last tokens of a source, then it takes the same from what comes before
them. With what holds of sources that go on, what is behind the tokens that are taken can be
exchanged. There is one exception: the search for the end of the head of a function may go on
beyond the declaration that it begins in.
-/
namespace ContractRegistry.Source

/-- What is taken from a source is taken also when tokens that are left are cut off. -/
def Cuts {α : Type} (read : List Token → Parsed (Taken α)) : Prop :=
  ∀ ⦃ts more rest : List Token⦄ ⦃a : α⦄, read (ts ++ more) = .ok (a, rest) →
    more.length ≤ rest.length → ∃ left, rest = left ++ more ∧ read ts = .ok (a, left)

/-- What is skipped in a source is skipped also when tokens that are left are cut off. -/
def CutsSkipped (skip : List Token → Parsed (List Token)) : Prop :=
  ∀ ⦃ts more rest : List Token⦄, skip (ts ++ more) = .ok rest →
    more.length ≤ rest.length → ∃ left, rest = left ++ more ∧ skip ts = .ok left

section
variable {more : List Token}

/-- At the end of what is kept, a reader that takes something takes it from what is cut off. -/
theorem not_kept {ts rest : List Token} {P : Prop} (shorter : rest.length < ts.length)
    (kept : ts.length ≤ rest.length) : P :=
  absurd shorter (Nat.not_lt.mpr kept)

theorem atPunct_cut {c : Char} {ts : List Token} (other : ¬ atPunct c (ts ++ more) = true) :
    ¬ atPunct c ts = true := by
  cases ts with
  | nil => simp [atPunct]
  | cons t ts => exact other

theorem takeKind_cuts (kind : TokenKind) (expected : String) : CutsSkipped (takeKind kind expected) := by
  intro ts more rest run kept
  cases ts with
  | nil => exact not_kept (takeKind_continued 0 [] run).1 kept
  | cons t ts =>
    rw [List.cons_append, takeKind] at run
    split at run
    · next same =>
      cases run
      exact ⟨ts, rfl, if_pos same⟩
    · contradiction

theorem takeWord_cuts (expected : String) : Cuts (takeWord expected) := by
  intro ts more rest text run kept
  cases ts with
  | nil => exact not_kept (takeWord_continued 0 [] run).1 kept
  | cons t ts =>
    rw [List.cons_append, takeWord] at run
    split at run
    · next word =>
      cases run
      refine ⟨ts, rfl, ?_⟩
      rw [takeWord, word]
    · contradiction

theorem dropped_cuts {drops : List Token → Prop} [DecidablePred drops]
    (first : ∀ t ts us, drops (t :: ts) ↔ drops (t :: us)) (none : ¬ drops []) {ts : List Token}
    (kept : more.length ≤
      (if drops (ts ++ more) then (ts ++ more).drop 1 else ts ++ more).length) :
    (if drops (ts ++ more) then (ts ++ more).drop 1 else ts ++ more) =
      (if drops ts then ts.drop 1 else ts) ++ more := by
  cases ts with
  | nil =>
    rw [List.nil_append] at kept ⊢
    rw [if_neg none]
    cases more with
    | nil => exact if_neg none
    | cons t more =>
      by_cases dropped : drops (t :: more)
      · rw [if_pos dropped] at kept
        exact not_kept (Nat.lt_succ_self _) kept
      · exact if_neg dropped
  | cons t ts =>
    rw [List.cons_append]
    by_cases dropped : drops (t :: ts)
    · rw [if_pos dropped, if_pos ((first t _ _).mp dropped)]
      rfl
    · rw [if_neg dropped, if_neg fun other => dropped ((first t _ _).mp other)]
      rfl

theorem skipWord_cuts {ts : List Token} (kept : more.length ≤ (skipWord (ts ++ more)).length) :
    skipWord (ts ++ more) = skipWord ts ++ more :=
  @dropped_cuts more (fun ts => (peekWord? ts).isSome) _ (fun _ _ _ => Iff.rfl) (by simp [peekWord?]) ts
    kept

theorem skipThisWord_cuts {word : String} {ts : List Token}
    (kept : more.length ≤ (skipThisWord word (ts ++ more)).length) :
    skipThisWord word (ts ++ more) = skipThisWord word ts ++ more :=
  @dropped_cuts more (fun ts => peekWord? ts = some word) _ (fun _ _ _ => Iff.rfl) (by simp [peekWord?])
    ts kept

theorem payable_cuts {name : String} {ts : List Token}
    (kept : more.length ≤
      (if name = "address" then skipThisWord "payable" (ts ++ more) else ts ++ more).length) :
    (if name = "address" then skipThisWord "payable" (ts ++ more) else ts ++ more) =
      (if name = "address" then skipThisWord "payable" ts else ts) ++ more := by
  by_cases address : name = "address"
  · rw [if_pos address] at kept
    rw [if_pos address, if_pos address, skipThisWord_cuts kept]
  · rw [if_neg address, if_neg address]

theorem upToSemicolon_cuts (depth : Nat) : Cuts (upToSemicolon depth) := by
  intro ts more rest taken run kept
  induction ts generalizing depth taken with
  | nil => exact not_kept (upToSemicolon_continued 0 [] run).1 kept
  | cons t ts ih =>
    rw [List.cons_append] at run
    unfold upToSemicolon at run ⊢
    split at run
    · next ends =>
      cases run
      exact ⟨ts, rfl, if_pos ends⟩
    · next goes =>
      obtain ⟨⟨inner, behind⟩, first, run⟩ := bind_eq_ok.mp run
      cases run
      obtain ⟨left, rfl, again⟩ := ih _ first
      refine ⟨left, rfl, ?_⟩
      rw [if_neg goes]
      exact bind_eq_ok.mpr ⟨_, again, rfl⟩

theorem skipStatement_cuts : CutsSkipped skipStatement := by
  intro ts more rest run kept
  obtain ⟨⟨taken, behind⟩, first, run⟩ := bind_eq_ok.mp run
  cases run
  obtain ⟨left, rfl, again⟩ := upToSemicolon_cuts 0 first kept
  exact ⟨left, rfl, bind_eq_ok.mpr ⟨_, again, rfl⟩⟩

theorem skipPastClosing_cuts (opening closing : Char) (depth : Nat) :
    CutsSkipped (skipPastClosing opening closing depth) := by
  intro ts more rest run kept
  induction ts generalizing depth with
  | nil => exact not_kept (skipPastClosing_continued 0 [] run).1 kept
  | cons t ts ih =>
    rw [List.cons_append] at run
    unfold skipPastClosing at run ⊢
    split at run
    · next opens =>
      rw [if_pos opens]
      exact ih _ run
    next inside =>
    rw [if_neg inside]
    split at run
    · next closes =>
      rw [if_pos closes]
      cases depth with
      | zero =>
        cases run
        exact ⟨ts, rfl, rfl⟩
      | succ depth => exact ih _ run
    · next other =>
      rw [if_neg other]
      exact ih _ run

theorem skipParens_cuts : CutsSkipped skipParens := by
  intro ts more rest run kept
  obtain ⟨inner, first, run⟩ := bind_eq_ok.mp run
  have shorter := (skipPastClosing_continued 0 [] run).1
  obtain ⟨inner, rfl, again⟩ := takeKind_cuts _ _ first (by omega)
  obtain ⟨left, rfl, again'⟩ := skipPastClosing_cuts _ _ _ run kept
  exact ⟨left, rfl, bind_eq_ok.mpr ⟨_, again, again'⟩⟩

theorem skipOptionalParens_cuts : CutsSkipped skipOptionalParens := by
  intro ts more rest run kept
  unfold skipOptionalParens at run ⊢
  split at run
  · next opens =>
    obtain ⟨left, rfl, again⟩ := skipParens_cuts run kept
    refine ⟨left, rfl, ?_⟩
    cases ts with
    | nil => contradiction
    | cons t ts => exact (if_pos opens).trans again
  · next none =>
    cases run
    exact ⟨ts, rfl, if_neg (atPunct_cut none)⟩

theorem skipHeadAndBody_cuts (depth : Nat) : CutsSkipped (skipHeadAndBody depth) := by
  intro ts more rest run kept
  induction ts generalizing depth with
  | nil => exact not_kept (skipHeadAndBody_continued 0 [] run).1 kept
  | cons t ts ih =>
    rw [List.cons_append] at run
    cases depth with
    | zero =>
      unfold skipHeadAndBody at run ⊢
      split at run
      · next opens =>
        rw [if_pos opens]
        exact ih _ run
      next opensNot =>
      rw [if_neg opensNot]
      split at run
      · next body =>
        rw [if_pos body]
        exact skipPastClosing_cuts _ _ _ run kept
      next bodyNot =>
      rw [if_neg bodyNot]
      split at run
      · next ends =>
        cases run
        exact ⟨ts, rfl, if_pos ends⟩
      · next goes =>
        rw [if_neg goes]
        exact ih _ run
    | succ depth =>
      unfold skipHeadAndBody at run ⊢
      split at run
      · next opens =>
        rw [if_pos opens]
        exact ih _ run
      next opensNot =>
      rw [if_neg opensNot]
      split at run
      · next closes =>
        rw [if_pos closes]
        exact ih _ run
      · next inside =>
        rw [if_neg inside]
        exact ih _ run

theorem skipFunction_cuts : CutsSkipped skipFunction := by
  intro ts more rest run kept
  cases ts with
  | nil => exact not_kept (skipFunction_continued 0 [] run).1 kept
  | cons t ts => exact skipHeadAndBody_cuts 0 run kept

theorem lastPart_stops {name last : String} {ts rest : List Token}
    (run : lastPart name ts = .ok (last, rest)) (kept : ts.length ≤ rest.length) :
    last = name ∧ rest = ts := by
  fun_induction lastPart name ts with
  | case1 | case3 | case6 =>
    cases run
    exact ⟨rfl, rfl⟩
  | case2 | case5 => contradiction
  | case4 name t u ts dot part word =>
    have shorter := (lastPart_continued 0 [] run).1
    exact not_kept (Nat.lt_succ_of_le (Nat.le_succ_of_le shorter)) kept

theorem lastPart_cuts (name : String) : Cuts (lastPart name) := by
  intro ts more rest last run kept
  fun_induction lastPart name ts with
  | case1 name =>
    obtain ⟨rfl, rfl⟩ := lastPart_stops run kept
    exact ⟨[], rfl, rfl⟩
  | case2 name t dot =>
    cases more with
    | nil => simp [lastPart, dot] at run
    | cons u more =>
      rw [List.singleton_append, lastPart, if_pos dot] at run
      split at run
      · next part _ =>
        have shorter := (lastPart_continued 0 [] run).1
        exact not_kept (Nat.lt_succ_of_le shorter) kept
      · contradiction
  | case3 name t other =>
    cases more with
    | nil =>
      rw [List.append_nil, lastPart, if_neg other] at run
      cases run
      exact ⟨[t], rfl, rfl⟩
    | cons u more =>
      rw [List.singleton_append, lastPart, if_neg other] at run
      cases run
      exact ⟨[t], rfl, rfl⟩
  | case4 name t u ts dot part word ih =>
    rw [List.cons_append, List.cons_append, lastPart, if_pos dot, word] at run
    exact ih run
  | case5 name t u ts dot word =>
    rw [List.cons_append, List.cons_append, lastPart, if_pos dot, word] at run
    contradiction
  | case6 name t u ts other =>
    rw [List.cons_append, List.cons_append, lastPart, if_neg other] at run
    cases run
    exact ⟨t :: u :: ts, rfl, rfl⟩

theorem takePath_cuts : Cuts takePath := by
  intro ts more rest name run kept
  obtain ⟨⟨first, behind⟩, taken, run⟩ := bind_eq_ok.mp run
  have shorter := (lastPart_continued 0 [] run).1
  obtain ⟨behind, rfl, again⟩ := takeWord_cuts _ taken (Nat.le_trans kept shorter)
  obtain ⟨left, rfl, again'⟩ := lastPart_cuts _ run kept
  exact ⟨left, rfl, bind_eq_ok.mpr ⟨_, again, again'⟩⟩

theorem takeBrackets_open {ty whole : TypeExpr} {b : OpenBracket} {ts rest : List Token}
    (run : takeBrackets ty (some b) ts = .ok (whole, rest)) : rest.length < ts.length := by
  cases ts with
  | nil => contradiction
  | cons t ts =>
    rw [takeBrackets] at run
    split at run
    · exact Nat.lt_succ_of_le (takeBrackets_continued 0 [] run).1
    split at run
    · split at run
      · exact Nat.lt_succ_of_le (takeBrackets_continued 0 [] run).1
      · exact Nat.lt_succ_of_le (takeBrackets_continued 0 [] run).1
    · exact Nat.lt_succ_of_le (takeBrackets_continued 0 [] run).1

theorem takeBrackets_cuts (ty : TypeExpr) (b : Option OpenBracket) : Cuts (takeBrackets ty b) := by
  intro ts more rest whole run kept
  fun_induction takeBrackets ty b ts with
  | case1 ty =>
    rw [List.nil_append] at run
    cases more with
    | nil =>
      cases run
      exact ⟨[], rfl, rfl⟩
    | cons t more =>
      rw [takeBrackets] at run
      split at run
      · exact not_kept (Nat.lt_succ_of_lt (takeBrackets_open run)) kept
      · cases run
        exact ⟨[], rfl, rfl⟩
  | case2 ty b => exact not_kept (takeBrackets_open run) kept
  | case3 ty t ts opens ih =>
    rw [List.cons_append, takeBrackets, if_pos opens] at run
    exact ih run
  | case4 ty t ts other =>
    rw [List.cons_append, takeBrackets, if_neg other] at run
    cases run
    exact ⟨t :: ts, rfl, rfl⟩
  | case5 ty b t ts opens ih =>
    rw [List.cons_append, takeBrackets, if_pos opens] at run
    exact ih run
  | case6 ty b t ts opensNot closes outer ih =>
    rw [List.cons_append, takeBrackets, if_neg opensNot, if_pos closes, if_pos outer] at run
    exact ih run
  | case7 ty b t ts opensNot closes inner ih =>
    rw [List.cons_append, takeBrackets, if_neg opensNot, if_pos closes, if_neg inner] at run
    exact ih run
  | case8 ty b t ts opensNot closesNot ih =>
    rw [List.cons_append, takeBrackets, if_neg opensNot, if_neg closesNot] at run
    exact ih run

theorem takeFunctionWords_open {external result : Bool} {depth : Nat} {ts rest : List Token}
    (run : takeFunctionWords external (depth + 1) ts = .ok (result, rest)) :
    rest.length < ts.length := by
  cases ts with
  | nil => contradiction
  | cons t ts =>
    rw [takeFunctionWords] at run
    split at run
    · exact Nat.lt_succ_of_le (takeFunctionWords_continued 0 [] run).1
    split at run
    · exact Nat.lt_succ_of_le (takeFunctionWords_continued 0 [] run).1
    · exact Nat.lt_succ_of_le (takeFunctionWords_continued 0 [] run).1

theorem takeFunctionWords_stops {external result : Bool} {ts rest : List Token}
    (run : takeFunctionWords external 0 ts = .ok (result, rest)) (kept : ts.length ≤ rest.length) :
    result = external ∧ rest = ts := by
  cases ts with
  | nil =>
    cases run
    exact ⟨rfl, rfl⟩
  | cons t ts =>
    rw [takeFunctionWords.eq_def] at run
    dsimp only at run
    split at run
    case h_6 =>
      split at run
      · contradiction
      · split at run
        · have shorter := takeFunctionWords_open run
          exact not_kept (Nat.lt_succ_of_lt (Nat.lt_succ_of_lt shorter)) kept
        · contradiction
    case h_7 =>
      cases run
      exact ⟨rfl, rfl⟩
    all_goals exact not_kept (Nat.lt_succ_of_le (takeFunctionWords_continued 0 [] run).1) kept

theorem takeFunctionWords_cuts (external : Bool) (depth : Nat) :
    Cuts (takeFunctionWords external depth) := by
  intro ts more rest result run kept
  fun_induction takeFunctionWords external depth ts
  case case1 =>
    obtain ⟨rfl, rfl⟩ := takeFunctionWords_stops run kept
    exact ⟨[], rfl, rfl⟩
  case case2 => exact not_kept (takeFunctionWords_open run) kept
  case case3 word ih | case4 word ih | case5 word ih | case6 word ih | case7 word ih =>
    rw [List.cons_append, takeFunctionWords.eq_def] at run
    simp only [word] at run
    exact ih run
  case case8 word =>
    rw [List.singleton_append, takeFunctionWords.eq_def] at run
    simp only [word] at run
    cases more with
    | nil => contradiction
    | cons u more =>
      dsimp only at run
      split at run
      · exact not_kept (Nat.lt_succ_of_lt (takeFunctionWords_open run)) kept
      · contradiction
  case case9 word u us opens ih =>
    rw [List.cons_append, List.cons_append, takeFunctionWords.eq_def] at run
    simp only [word] at run
    exact ih ((if_pos opens).symm.trans run)
  case case10 word u us opensNot =>
    rw [List.cons_append, List.cons_append, takeFunctionWords.eq_def] at run
    simp only [word] at run
    rw [if_neg opensNot] at run
    contradiction
  case case11 t ts _ _ _ _ _ _ =>
    rw [List.cons_append, takeFunctionWords.eq_def] at run
    simp only at run
    cases run
    exact ⟨t :: ts, rfl, rfl⟩
  case case12 opens ih =>
    rw [List.cons_append, takeFunctionWords, if_pos opens] at run
    exact ih run
  case case13 opensNot closes ih =>
    rw [List.cons_append, takeFunctionWords, if_neg opensNot, if_pos closes] at run
    exact ih run
  case case14 opensNot closesNot ih =>
    rw [List.cons_append, takeFunctionWords, if_neg opensNot, if_neg closesNot] at run
    exact ih run

theorem takeFunctionType_cuts : Cuts takeFunctionType := by
  intro ts more rest ty run kept
  obtain ⟨inner, first, run⟩ := bind_eq_ok.mp run
  obtain ⟨⟨external, behind⟩, words, run⟩ := bind_eq_ok.mp run
  cases run
  have shorter := (takeFunctionWords_continued 0 [] words).1
  obtain ⟨inner, rfl, again⟩ := skipParens_cuts first (Nat.le_trans kept shorter)
  obtain ⟨left, rfl, again'⟩ := takeFunctionWords_cuts _ _ words kept
  exact ⟨left, rfl, bind_eq_ok.mpr ⟨_, again, bind_eq_ok.mpr ⟨_, again', rfl⟩⟩⟩

theorem takeNamedType_cuts (line : Nat) : Cuts (takeNamedType line) := by
  intro ts more rest ty run kept
  obtain ⟨⟨name, behind⟩, path, run⟩ := bind_eq_ok.mp run
  cases run
  have shorter : (if name = "address" then skipThisWord "payable" behind else behind).length ≤
      behind.length := by
    have fewer := length_skipThisWord_le "payable" behind
    split <;> omega
  obtain ⟨behind, rfl, again⟩ := takePath_cuts path (Nat.le_trans kept shorter)
  exact ⟨_, payable_cuts kept, bind_eq_ok.mpr ⟨_, again, rfl⟩⟩

theorem takeBehindWord_cuts {kind : TokenKind} {expected : String} {ts rest : List Token}
    (run : takeKind kind expected (skipWord (ts ++ more)) = .ok rest)
    (kept : more.length ≤ rest.length) :
    ∃ left, rest = left ++ more ∧ takeKind kind expected (skipWord ts) = .ok left := by
  have shorter := (takeKind_continued 0 [] run).1
  rw [skipWord_cuts (by omega)] at run
  exact takeKind_cuts kind expected run kept

theorem takeType_cuts {depth depth' : Nat} {ts rest : List Token} (enough : ts.length ≤ depth')
    {ty : TypeExpr} (run : takeType depth (ts ++ more) = .ok (ty, rest))
    (kept : more.length ≤ rest.length) :
    ∃ left, rest = left ++ more ∧ takeType depth' ts = .ok (ty, left) := by
  induction depth generalizing depth' ts ty rest with
  | zero => cases ts <;> cases more <;> contradiction
  | succ depth ih =>
    cases ts with
    | nil => exact not_kept (takeType_continued 0 [] (Nat.le_refl _) run).1 kept
    | cons t ts =>
      rw [List.length_cons] at enough
      obtain ⟨depth', rfl⟩ : ∃ d, depth' = d + 1 := ⟨depth' - 1, by omega⟩
      rw [List.cons_append] at run
      unfold takeType at run ⊢
      split at run
      · next word =>
        obtain ⟨ts₁, opened, run⟩ := bind_eq_ok.mp run
        obtain ⟨⟨key, ts₂⟩, keyed, run⟩ := bind_eq_ok.mp run
        obtain ⟨ts₃, arrow, run⟩ := bind_eq_ok.mp run
        obtain ⟨⟨value, ts₄⟩, valued, run⟩ := bind_eq_ok.mp run
        obtain ⟨ts₅, closed, brackets⟩ := bind_eq_ok.mp run
        have shorter₂ := (takeType_continued 0 [] (Nat.le_refl _) keyed).1
        have shorter₃ := (takeBehindWord_continued 0 [] arrow).1
        have shorter₄ := (takeType_continued 0 [] (Nat.le_refl _) valued).1
        have shorter₅ := (takeBehindWord_continued 0 [] closed).1
        have shorter₆ := (takeBrackets_continued 0 [] brackets).1
        obtain ⟨ts₁, rfl, again₁⟩ := takeKind_cuts _ _ opened (by omega)
        have fewer₁ := (takeKind_continued 0 [] again₁).1
        obtain ⟨ts₂, rfl, again₂⟩ := ih (show ts₁.length ≤ depth' by omega) keyed (by omega)
        have fewer₂ := (takeType_continued 0 [] (Nat.le_refl _) again₂).1
        obtain ⟨ts₃, rfl, again₃⟩ := takeBehindWord_cuts arrow (by omega)
        have fewer₃ := (takeBehindWord_continued 0 [] again₃).1
        obtain ⟨ts₄, rfl, again₄⟩ := ih (show ts₃.length ≤ depth' by omega) valued (by omega)
        obtain ⟨ts₅, rfl, again₅⟩ := takeBehindWord_cuts closed (by omega)
        obtain ⟨left, rfl, again⟩ := takeBrackets_cuts _ _ brackets kept
        refine ⟨left, rfl, ?_⟩
        refine (bind_of_eq_ok again₁).trans ((bind_of_eq_ok again₂).trans ?_)
        refine (bind_of_eq_ok again₃).trans ((bind_of_eq_ok again₄).trans ?_)
        exact (bind_of_eq_ok again₅).trans again
      · next word =>
        obtain ⟨⟨first, behind⟩, bare, brackets⟩ := bind_eq_ok.mp run
        have shorter := (takeBrackets_continued 0 [] brackets).1
        obtain ⟨behind, rfl, again⟩ := takeFunctionType_cuts bare (Nat.le_trans kept shorter)
        obtain ⟨left, rfl, again'⟩ := takeBrackets_cuts _ _ brackets kept
        exact ⟨left, rfl, (bind_of_eq_ok again).trans again'⟩
      · next text word _ _ =>
        obtain ⟨⟨first, behind⟩, bare, brackets⟩ := bind_eq_ok.mp run
        have shorter := (takeBrackets_continued 0 [] brackets).1
        rw [← List.cons_append] at bare
        obtain ⟨behind, rfl, again⟩ := takeNamedType_cuts _ bare (Nat.le_trans kept shorter)
        obtain ⟨left, rfl, again'⟩ := takeBrackets_cuts _ _ brackets kept
        exact ⟨left, rfl, (bind_of_eq_ok again).trans again'⟩
      · contradiction

theorem typeExpr_cuts : Cuts typeExpr :=
  fun _ _ _ _ run kept => takeType_cuts (Nat.le_refl _) run kept

theorem takeFields_cuts {rounds rounds' : Nat} {ts rest : List Token} (enough : ts.length ≤ rounds')
    {fields : List (String × TypeExpr)} (run : takeFields rounds (ts ++ more) = .ok (fields, rest))
    (kept : more.length ≤ rest.length) :
    ∃ left, rest = left ++ more ∧ takeFields rounds' ts = .ok (fields, left) := by
  induction rounds generalizing rounds' ts fields with
  | zero => cases ts <;> cases more <;> contradiction
  | succ rounds ih =>
    cases ts with
    | nil => exact not_kept (takeFields_continued 0 [] (Nat.le_refl _) run).1 kept
    | cons t ts =>
      rw [List.length_cons] at enough
      obtain ⟨rounds', rfl⟩ : ∃ r, rounds' = r + 1 := ⟨rounds' - 1, by omega⟩
      rw [List.cons_append] at run
      unfold takeFields at run ⊢
      split at run
      · next closes =>
        cases run
        exact ⟨ts, rfl, if_pos closes⟩
      · next goes =>
        obtain ⟨⟨ty, ts₁⟩, typed, run⟩ := bind_eq_ok.mp run
        obtain ⟨⟨name, ts₂⟩, named, run⟩ := bind_eq_ok.mp run
        obtain ⟨ts₃, ended, run⟩ := bind_eq_ok.mp run
        obtain ⟨⟨others, ts₄⟩, onward, run⟩ := bind_eq_ok.mp run
        cases run
        have shorter₂ := (takeWord_continued 0 [] named).1
        have shorter₃ := (takeKind_continued 0 [] ended).1
        have shorter₄ := (takeFields_continued 0 [] (Nat.le_refl _) onward).1
        rw [← List.cons_append] at typed
        obtain ⟨ts₁, rfl, again₁⟩ := typeExpr_cuts typed (by omega)
        have fewer₁ := (typeExpr_continued 0 [] again₁).1
        obtain ⟨ts₂, rfl, again₂⟩ := takeWord_cuts _ named (by omega)
        have fewer₂ := (takeWord_continued 0 [] again₂).1
        obtain ⟨ts₃, rfl, again₃⟩ := takeKind_cuts _ _ ended (by omega)
        have fewer₃ := (takeKind_continued 0 [] again₃).1
        rw [List.length_cons] at fewer₁
        obtain ⟨left, rfl, again₄⟩ := ih (show ts₃.length ≤ rounds' by omega) onward
        refine ⟨left, rfl, ?_⟩
        rw [if_neg goes]
        exact bind_eq_ok.mpr ⟨_, again₁, bind_eq_ok.mpr ⟨_, again₂,
          bind_eq_ok.mpr ⟨_, again₃, bind_eq_ok.mpr ⟨_, again₄, rfl⟩⟩⟩⟩

theorem takeStruct_cuts : Cuts takeStruct := by
  intro ts more rest s run kept
  obtain ⟨⟨name, ts₁⟩, named, run⟩ := bind_eq_ok.mp run
  obtain ⟨ts₂, opened, run⟩ := bind_eq_ok.mp run
  obtain ⟨⟨fields, ts₃⟩, listed, run⟩ := bind_eq_ok.mp run
  cases run
  have shorter₂ := (takeKind_continued 0 [] opened).1
  have shorter₃ := (takeFields_continued 0 [] (Nat.le_refl _) listed).1
  obtain ⟨ts₁, rfl, again₁⟩ := takeWord_cuts _ named (by omega)
  obtain ⟨ts₂, rfl, again₂⟩ := takeKind_cuts _ _ opened (by omega)
  obtain ⟨left, rfl, again₃⟩ := takeFields_cuts (Nat.le_refl _) listed kept
  refine ⟨left, rfl, ?_⟩
  exact bind_eq_ok.mpr ⟨_, again₁, bind_eq_ok.mpr ⟨_, again₂, bind_eq_ok.mpr ⟨_, again₃, rfl⟩⟩⟩

theorem countMembers_cuts (count : Nat) : Cuts (countMembers count) := by
  intro ts more rest total run kept
  induction ts generalizing count with
  | nil => exact not_kept (countMembers_continued 0 [] run).1 kept
  | cons t ts ih =>
    rw [List.cons_append] at run
    unfold countMembers at run ⊢
    split at run
    · next word =>
      rw [if_pos word]
      exact ih _ run
    next wordNot =>
    rw [if_neg wordNot]
    split at run
    · next comma =>
      rw [if_pos comma]
      exact ih _ run
    next commaNot =>
    rw [if_neg commaNot]
    split at run
    · next closes =>
      cases run
      exact ⟨ts, rfl, if_pos closes⟩
    · contradiction

theorem takeEnum_cuts : Cuts takeEnum := by
  intro ts more rest e run kept
  obtain ⟨⟨name, ts₁⟩, named, run⟩ := bind_eq_ok.mp run
  obtain ⟨ts₂, opened, run⟩ := bind_eq_ok.mp run
  obtain ⟨⟨members, ts₃⟩, counted, run⟩ := bind_eq_ok.mp run
  cases run
  have shorter₂ := (takeKind_continued 0 [] opened).1
  have shorter₃ := (countMembers_continued 0 [] counted).1
  obtain ⟨ts₁, rfl, again₁⟩ := takeWord_cuts _ named (by omega)
  obtain ⟨ts₂, rfl, again₂⟩ := takeKind_cuts _ _ opened (by omega)
  obtain ⟨left, rfl, again₃⟩ := countMembers_cuts _ counted kept
  refine ⟨left, rfl, ?_⟩
  exact bind_eq_ok.mpr ⟨_, again₁, bind_eq_ok.mpr ⟨_, again₂, bind_eq_ok.mpr ⟨_, again₃, rfl⟩⟩⟩

theorem takeValueType_cuts : Cuts takeValueType := by
  intro ts more rest v run kept
  obtain ⟨⟨name, ts₁⟩, named, run⟩ := bind_eq_ok.mp run
  obtain ⟨ts₂, is, run⟩ := bind_eq_ok.mp run
  obtain ⟨⟨underlying, ts₃⟩, typed, run⟩ := bind_eq_ok.mp run
  obtain ⟨ts₄, ended, run⟩ := bind_eq_ok.mp run
  cases run
  have shorter₂ := (takeKind_continued 0 [] is).1
  have shorter₃ := (takeWord_continued 0 [] typed).1
  have shorter₄ := (takeKind_continued 0 [] ended).1
  have fewer := length_skipThisWord_le "payable" ts₃
  have shorter : (if underlying = "address" then skipThisWord "payable" ts₃ else ts₃).length ≤
      ts₃.length := by split <;> omega
  obtain ⟨ts₁, rfl, again₁⟩ := takeWord_cuts _ named (by omega)
  obtain ⟨ts₂, rfl, again₂⟩ := takeKind_cuts _ _ is (by omega)
  obtain ⟨ts₃, rfl, again₃⟩ := takeWord_cuts _ typed (by omega)
  have line : lineOf (ts ++ more) = lineOf ts := by
    cases ts with
    | nil => contradiction
    | cons t ts => rfl
  rw [payable_cuts (by omega)] at ended
  obtain ⟨left, rfl, again₄⟩ := takeKind_cuts _ _ ended kept
  refine ⟨left, rfl, ?_⟩
  rw [line]
  exact bind_eq_ok.mpr ⟨_, again₁, bind_eq_ok.mpr ⟨_, again₂, bind_eq_ok.mpr ⟨_, again₃,
    bind_eq_ok.mpr ⟨_, again₄, rfl⟩⟩⟩⟩

theorem takeAttributes_stops {a : Attributes} {t : Token} {ts rest : List Token}
    {result : Attributes × String} (run : takeAttributes a 0 (t :: ts) = .ok (result, rest))
    (kept : ts.length ≤ rest.length) : ∃ text, t.word? = some text ∧ result = (a, text) ∧ rest = ts := by
  rw [takeAttributes.eq_def] at run
  dsimp only at run
  split at run
  · contradiction
  next text word =>
  split at run
  · cases run
    exact ⟨text, word, rfl, rfl⟩
  split at run
  · split at run
    · exact not_kept (Nat.lt_succ_of_lt (takeAttributes_continued 0 [] run).1) kept
    · exact not_kept (takeAttributes_continued 0 [] run).1 kept
  all_goals contradiction

theorem takeAttributes_cuts (a : Attributes) (depth : Nat) : Cuts (takeAttributes a depth) := by
  intro ts more rest result run kept
  fun_induction takeAttributes a depth ts
  case case1 | case2 => exact not_kept (takeAttributes_continued 0 [] run).1 kept
  case case3 a t ts none =>
    rw [List.cons_append, takeAttributes.eq_def] at run
    simp only [none] at run
    contradiction
  case case4 a t ts text word ends =>
    cases ts with
    | nil =>
      obtain ⟨text', word', rfl, rfl⟩ := takeAttributes_stops run kept
      obtain rfl : text = text' := Option.some.inj (word.symm.trans word')
      exact ⟨[], rfl, rfl⟩
    | cons u us =>
      rw [List.cons_append, takeAttributes.eq_def] at run
      simp only [word] at run
      rw [if_pos (show nameEnds (u :: us ++ more) = true from ends)] at run
      cases run
      exact ⟨u :: us, rfl, rfl⟩
  case case5 a t text word b u us added opens ends ih =>
    rw [List.cons_append, takeAttributes.eq_def] at run
    simp only [word] at run
    rw [if_neg (show ¬ nameEnds (u :: us ++ more) = true from ends), List.cons_append, added] at run
    exact ih ((if_pos opens).symm.trans run)
  case case6 a t text word b u us added opensNot ends ih =>
    rw [List.cons_append, takeAttributes.eq_def] at run
    simp only [word] at run
    rw [if_neg (show ¬ nameEnds (u :: us ++ more) = true from ends), List.cons_append, added] at run
    exact ih ((if_neg opensNot).symm.trans run)
  case case7 ends | case9 ends => exact absurd rfl ends
  case case8 a t text word u us added ends =>
    rw [List.cons_append, takeAttributes.eq_def] at run
    simp only [word] at run
    rw [if_neg (show ¬ nameEnds (u :: us ++ more) = true from ends), List.cons_append, added] at run
    contradiction
  case case10 opens ih =>
    rw [List.cons_append, takeAttributes, if_pos opens] at run
    exact ih run
  case case11 opensNot closes ih =>
    rw [List.cons_append, takeAttributes, if_neg opensNot, if_pos closes] at run
    exact ih run
  case case12 opensNot closesNot ih =>
    rw [List.cons_append, takeAttributes, if_neg opensNot, if_neg closesNot] at run
    exact ih run

theorem takeInit_cuts : Cuts takeInit := by
  intro ts more rest init run kept
  cases ts with
  | nil => exact not_kept (takeInit_continued 0 [] run).1 kept
  | cons t ts =>
    unfold takeInit at run ⊢
    split at run
    · next given =>
      obtain ⟨⟨tokens, behind⟩, first, run⟩ := bind_eq_ok.mp run
      cases run
      obtain ⟨left, rfl, again⟩ := upToSemicolon_cuts 0 first kept
      refine ⟨left, rfl, ?_⟩
      rw [if_pos (show atPunct '=' (t :: ts) = true from given)]
      exact bind_eq_ok.mpr ⟨_, again, rfl⟩
    · next none =>
      obtain ⟨behind, first, run⟩ := bind_eq_ok.mp run
      cases run
      obtain ⟨left, rfl, again⟩ := takeKind_cuts _ _ first kept
      refine ⟨left, rfl, ?_⟩
      rw [if_neg (show ¬ atPunct '=' (t :: ts) = true from none)]
      exact bind_eq_ok.mpr ⟨_, again, rfl⟩

theorem takeVariable_cuts : Cuts takeVariable := by
  intro ts more rest v run kept
  obtain ⟨⟨ty, ts₁⟩, typed, run⟩ := bind_eq_ok.mp run
  obtain ⟨⟨⟨attributes, name⟩, ts₂⟩, named, run⟩ := bind_eq_ok.mp run
  obtain ⟨⟨init, ts₃⟩, ended, run⟩ := bind_eq_ok.mp run
  cases run
  have shorter₂ := (takeAttributes_continued 0 [] named).1
  have shorter₃ := (takeInit_continued 0 [] ended).1
  obtain ⟨ts₁, rfl, again₁⟩ := typeExpr_cuts typed (by omega)
  obtain ⟨ts₂, rfl, again₂⟩ := takeAttributes_cuts _ _ named (by omega)
  obtain ⟨left, rfl, again₃⟩ := takeInit_cuts ended kept
  refine ⟨left, rfl, ?_⟩
  exact bind_eq_ok.mpr ⟨_, again₁, bind_eq_ok.mpr ⟨_, again₂, bind_eq_ok.mpr ⟨_, again₃, rfl⟩⟩⟩

theorem takeBases_cuts {rounds rounds' : Nat} {ts rest : List Token} (enough : ts.length ≤ rounds')
    {bases : List String} (run : takeBases rounds (ts ++ more) = .ok (bases, rest))
    (kept : more.length ≤ rest.length) :
    ∃ left, rest = left ++ more ∧ takeBases rounds' ts = .ok (bases, left) := by
  induction rounds generalizing rounds' ts bases with
  | zero => contradiction
  | succ rounds ih =>
    have some_left : ts ≠ [] := by
      rintro rfl
      exact not_kept (takeBases_continued 0 [] (Nat.le_refl _) run).1 kept
    have := List.length_pos_iff.mpr some_left
    obtain ⟨rounds', rfl⟩ : ∃ r, rounds' = r + 1 := ⟨rounds' - 1, by omega⟩
    unfold takeBases at run ⊢
    obtain ⟨⟨base, ts₁⟩, named, run⟩ := bind_eq_ok.mp run
    obtain ⟨ts₂, skipped, run⟩ := bind_eq_ok.mp run
    have shorter₂ := (skipOptionalParens_continued 0 [] skipped).1
    split at run
    · next comma =>
      obtain ⟨⟨others, ts₃⟩, onward, run⟩ := bind_eq_ok.mp run
      cases run
      have shorter₃ := (takeBases_continued 0 [] (Nat.le_refl _) onward).1
      rw [List.length_drop] at shorter₃
      obtain ⟨ts₁, rfl, again₁⟩ := takePath_cuts named (by omega)
      have fewer₁ := (takePath_continued 0 [] again₁).1
      obtain ⟨ts₂, rfl, again₂⟩ := skipOptionalParens_cuts skipped (by omega)
      have fewer₂ := (skipOptionalParens_continued 0 [] again₂).1
      cases ts₂ with
      | nil =>
        rw [List.nil_append] at shorter₃
        omega
      | cons u us =>
        rw [List.length_cons] at fewer₂
        obtain ⟨left, rfl, again₃⟩ := ih (show us.length ≤ rounds' by omega) onward
        refine ⟨left, rfl, bind_eq_ok.mpr ⟨_, again₁, bind_eq_ok.mpr ⟨_, again₂, ?_⟩⟩⟩
        exact (if_pos comma).trans (bind_eq_ok.mpr ⟨_, again₃, rfl⟩)
    · next none =>
      cases run
      obtain ⟨ts₁, rfl, again₁⟩ := takePath_cuts named (Nat.le_trans kept shorter₂)
      obtain ⟨left, rfl, again₂⟩ := skipOptionalParens_cuts skipped kept
      refine ⟨left, rfl, bind_eq_ok.mpr ⟨_, again₁, bind_eq_ok.mpr ⟨_, again₂, ?_⟩⟩⟩
      exact if_neg (atPunct_cut none)

theorem takeOptionalBases_cuts : Cuts takeOptionalBases := by
  intro ts more rest bases run kept
  unfold takeOptionalBases at run ⊢
  split at run
  · next is =>
    cases ts with
    | nil =>
      have shorter := (takeBases_continued 0 [] (Nat.le_refl _) run).1
      rw [List.length_drop, List.nil_append] at shorter
      omega
    | cons t ts =>
      obtain ⟨left, rfl, again⟩ := takeBases_cuts
        (show ts.length ≤ (t :: ts).length from Nat.le_succ _) run kept
      exact ⟨left, rfl, (if_pos (show peekWord? (t :: ts) = some "is" from is)).trans again⟩
  · next none =>
    cases run
    refine ⟨ts, rfl, if_neg ?_⟩
    cases ts with
    | nil => simp [peekWord?]
    | cons t ts => exact none

theorem skipped_cuts {β : Type} {skip : List Token → Parsed (List Token)} (cuts : CutsSkipped skip)
    (nothing : β) : Cuts fun ts => skip ts >>= fun left => .ok (nothing, left) := by
  intro ts more rest b run kept
  obtain ⟨behind, skipped, run⟩ := bind_eq_ok.mp run
  cases run
  obtain ⟨left, rfl, again⟩ := cuts skipped kept
  exact ⟨left, rfl, bind_of_eq_ok again⟩

theorem told_cuts {α β : Type} {read : List Token → Parsed (Taken α)} (cuts : Cuts read)
    (tell : α → β) : Cuts fun ts => read ts >>= fun taken => .ok (tell taken.1, taken.2) := by
  intro ts more rest b run kept
  obtain ⟨⟨a, behind⟩, taken, run⟩ := bind_eq_ok.mp run
  cases run
  obtain ⟨left, rfl, again⟩ := cuts taken kept
  exact ⟨left, rfl, bind_of_eq_ok again⟩

theorem suffix_of_cuts {α : Type} {read : List Token → Parsed (Taken α)} (cuts : Cuts read)
    {ts rest : List Token} {a : α} (run : read ts = .ok (a, rest)) (shorter : rest.length ≤ ts.length) :
    rest <:+ ts := by
  have split := List.take_append_drop (ts.length - rest.length) ts
  have length : (ts.drop (ts.length - rest.length)).length = rest.length := by
    rw [List.length_drop]
    omega
  rw [← split] at run
  obtain ⟨left, is, -⟩ := cuts run (Nat.le_of_eq length)
  have none : left.length = 0 := by
    have lengths := congrArg List.length is
    rw [List.length_append, length] at lengths
    omega
  rw [is, List.length_eq_zero_iff.mp none, List.nil_append]
  exact List.drop_suffix _ ts

/-- A member is taken also when tokens behind it are cut off, if the search for the end of the head of
a function, should it be one, tells the same without them. -/
theorem takeMember_cuts {word : String} {t : Token} {ts rest : List Token} {m : Members}
    (run : takeMember word (t :: (ts ++ more)) = .ok (m, rest)) (kept : more.length ≤ rest.length)
    (ended : word = "function" → declaresVariable (ts ++ more) = declaresVariable ts) :
    ∃ left, rest = left ++ more ∧ takeMember word (t :: ts) = .ok (m, left) := by
  have stored := told_cuts takeVariable_cuts Members.ofVariable
  have function := skipped_cuts skipFunction_cuts Members.none
  have statement := skipped_cuts skipStatement_cuts Members.none
  rw [← List.cons_append] at run
  unfold takeMember at run ⊢
  dsimp only at run ⊢
  split at run
  case h_1 =>
    rw [List.cons_append, List.drop_one, List.tail_cons, ended rfl] at run
    rw [List.drop_one, List.tail_cons]
    split at run
    · next declares =>
      rw [if_pos declares]
      exact stored run kept
    · next skips =>
      rw [if_neg skips]
      exact function run kept
  case h_2 | h_3 | h_4 | h_5 => exact function run kept
  case h_6 | h_7 | h_8 => exact statement run kept
  case h_9 => exact told_cuts takeStruct_cuts (fun s => Members.ofTypes (.ofStruct s)) run kept
  case h_10 => exact told_cuts takeEnum_cuts (fun e => Members.ofTypes (.ofEnum e)) run kept
  case h_11 => exact told_cuts takeValueType_cuts (fun v => Members.ofTypes (.ofValueType v)) run kept
  case h_12 => exact stored run kept

end

end ContractRegistry.Source
