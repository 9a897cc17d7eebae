import ContractRegistry.Proofs.Source.Spelling

/-!
Types are read as they are spelled.

A reader of types takes as many tokens as go on a type. What stands behind a type must not do so: this
is all that a reader needs to know about it.
-/
namespace ContractRegistry.Source

/-- Tokens that are balanced on their own can be put inside of brackets, where more is plain. -/
theorem balanced_append {opens closes plain within : TokenKind → Bool} {depth outer : Nat}
    {ks ls : List TokenKind} (inside : balanced opens closes within depth ks = true)
    (behind : balanced opens closes plain outer ls = true)
    (weaker : outer = 0 → ∀ k, within k = true → plain k = true) :
    balanced opens closes plain (depth + outer) (ks ++ ls) = true := by
  induction ks generalizing depth with
  | nil =>
    obtain rfl := balanced_nil.mp inside
    rwa [Nat.zero_add]
  | cons k ks ih =>
    rw [List.cons_append, balanced]
    obtain ⟨opened, behind⟩ | ⟨other, closed, depth, rfl, behind⟩ | ⟨other, inner, allowed, behind⟩ :=
      balanced_cons inside
    · rw [if_pos opened, Nat.add_right_comm]
      exact ih behind
    · rw [if_neg (by simp [other]), if_pos closed, Nat.add_right_comm]
      simpa using ih behind
    · rw [if_neg (by simp [other]), if_neg (by simp [inner]), ih behind, Bool.and_true]
      cases depth with
      | succ depth => simp
      | zero =>
        have outside := allowed.resolve_left (not_not_intro rfl)
        rw [Nat.zero_add]
        by_cases here : outer = 0
        · simp [weaker here k outside]
        · simp [here]

section
variable {rest : List Token}

theorem balancedHead_append {depth : Nat} {without : List Char} {ts us : List Token}
    (inside : balancedHead 0 without (kinds ts) = true)
    (behind : balancedHead depth without (kinds us) = true) :
    balancedHead depth without (kinds (ts ++ us)) = true := by
  have joined := balanced_append inside behind fun _ _ => id
  rwa [Nat.zero_add, ← kinds_append] at joined

theorem balancedHead_parens {ps : List Token} (parens : Parens ps) (without : List Char) :
    balancedHead 0 without (kinds ps) = true := by
  obtain ⟨opens, inside, closes⟩ := parens
  have last : balancedHead 1 without [.punct ')'] = true := rfl
  simpa [balancedHead, balanced, opens, closes] using balanced_append inside last (by simp)

theorem skipParens_parens {ps : List Token} (parens : Parens ps) :
    skipParens (ps ++ rest) = .ok rest := by
  obtain ⟨opens, inside, closes⟩ := parens
  simpa using @skipParens_balanced rest _ _ _ opens inside closes

theorem skipPastClosing_parens {ps : List Token} (parens : Parens ps) :
    ∃ t us, ps = t :: us ∧ t.kind = .punct '(' ∧ skipPastClosing '(' ')' 0 (us ++ rest) = .ok rest := by
  obtain ⟨opens, inside, closes⟩ := parens
  refine ⟨_, _, rfl, opens, ?_⟩
  simpa using @skipPastClosing_balanced rest _ _ (by decide) _ _ _ inside _ closes

/-- A reader that counts parentheses and goes on behind them goes on where they are skipped. -/
theorem inside_parens {α : Type} (read : Nat → List Token → Parsed α)
    (nil : ∀ depth, read (depth + 1) [] = .error (.unexpectedEnd "`)`"))
    (cons : ∀ depth t ts, read (depth + 1) (t :: ts) =
      if t.kind = .punct '(' then read (depth + 2) ts
      else if t.kind = .punct ')' then read depth ts
      else read (depth + 1) ts) (depth : Nat) (ts : List Token) :
    read (depth + 1) ts = skipPastClosing '(' ')' depth ts >>= read 0 := by
  induction ts generalizing depth with
  | nil => exact nil depth
  | cons t ts ih =>
    rw [cons, skipPastClosing.eq_def]
    dsimp only
    split
    · exact ih (depth + 1)
    · split
      · cases depth with
        | zero => rfl
        | succ depth => exact ih depth
      · exact ih depth

theorem word_of_kind {t : Token} {text : String} (is : t.kind = .word text) : t.word? = some text := by
  rw [Token.word?, is]

theorem takeFunctionWords_inside (external : Bool) (depth : Nat) (ts : List Token) :
    takeFunctionWords external (depth + 1) ts =
      skipPastClosing '(' ')' depth ts >>= takeFunctionWords external 0 :=
  inside_parens (takeFunctionWords external) (fun _ => rfl) (fun _ _ _ => rfl) depth ts

def functionWords : List String :=
  ["external", "internal", "view", "pure", "payable", "returns"]

theorem takeFunctionWords_end (external : Bool) (apart : ∀ text ∈ functionWords, peekWord? rest ≠ some text) :
    takeFunctionWords external 0 rest = .ok (external, rest) := by
  cases rest with
  | nil => rfl
  | cons t ts =>
    have other : ∀ text ∈ functionWords, t.word? ≠ some text := apart
    unfold takeFunctionWords
    split
    case h_7 => rfl
    all_goals exact absurd ‹_› (other _ (by decide))

theorem takeFunctionWords_spelled {before after : Bool} {ws : List Token}
    (words : FunctionWords before after ws) (apart : ∀ text ∈ functionWords, peekWord? rest ≠ some text) :
    takeFunctionWords before 0 (ws ++ rest) = .ok (after, rest) := by
  induction words with
  | nil external => exact takeFunctionWords_end external apart
  | external is _ ih =>
    rw [List.cons_append, takeFunctionWords.eq_def]
    dsimp only
    rw [word_of_kind is]
    exact ih
  | other is known _ ih =>
    rw [List.cons_append, takeFunctionWords.eq_def]
    dsimp only
    rw [word_of_kind is]
    simp only [List.mem_cons, List.not_mem_nil, or_false] at known
    rcases known with rfl | rfl | rfl | rfl <;> exact ih
  | @returns before after t ps ts is results _ ih =>
    obtain ⟨first, us, rfl, opens, skipped⟩ := @skipPastClosing_parens (ts ++ rest) _ results
    rw [List.cons_append, List.append_assoc, List.cons_append, takeFunctionWords.eq_def]
    dsimp only
    rw [word_of_kind is]
    show (if _ then _ else _) = _
    rw [if_pos opens, takeFunctionWords_inside, bind_of_eq_ok skipped]
    exact ih

theorem takeBrackets_inside {plain : TokenKind → Bool} {ty : TypeExpr} {b : OpenBracket} {ts : List Token}
    (inside : balanced (· = .punct '[') (· = .punct ']') plain b.depth (kinds ts) = true) {last : Token}
    (closes : last.kind = .punct ']') :
    takeBrackets ty (some b) (ts ++ last :: rest) =
      takeBrackets (OpenBracket.close ⟨b.line, 0, ts.reverse ++ b.length⟩ ty) none rest := by
  obtain ⟨line, depth, length⟩ := b
  induction ts generalizing depth length with
  | nil =>
    obtain rfl := balanced_nil.mp inside
    rw [List.nil_append, takeBrackets, closes, if_neg (by decide), if_pos rfl, if_pos rfl]
    rfl
  | cons t ts ih =>
    rw [List.cons_append, List.reverse_cons, List.append_assoc, takeBrackets]
    obtain ⟨opened, behind⟩ | ⟨other, closed, outer, rfl, behind⟩ | ⟨other, inner, -, behind⟩ :=
      balanced_cons inside
    · rw [if_pos (of_decide_eq_true opened)]
      exact ih _ _ behind
    · rw [if_neg (of_decide_eq_false other), if_pos (of_decide_eq_true closed), if_neg (by simp)]
      exact ih _ _ behind
    · rw [if_neg (of_decide_eq_false other), if_neg (of_decide_eq_false inner)]
      exact ih _ _ behind

theorem takeBrackets_end {ty : TypeExpr} (apart : atPunct '[' rest = false) :
    takeBrackets ty none rest = .ok (ty, rest) := by
  cases rest with
  | nil => rfl
  | cons t ts => exact if_neg (of_decide_eq_false apart)

def TypeExpr.Apart (rest : List Token) : TypeExpr → Prop
  | .named _ _ => atPunct '.' rest = false ∧ peekWord? rest ≠ some "payable"
  | .function _ => ∀ text ∈ functionWords, peekWord? rest ≠ some text
  | .mapping _ _ => True
  | .array _ _ _ => True

theorem apart_punct {t : Token} {ts : List Token} (other : t.word? = none) (dot : t.kind ≠ .punct '.')
    (ty : TypeExpr) : ty.Apart (t :: ts) := by
  cases ty with
  | named name line => exact ⟨decide_eq_false dot, by simp [peekWord?, other]⟩
  | function external =>
    intro text _
    simp [peekWord?, other]
  | mapping key value => trivial
  | array element length line => trivial

theorem apart_word {t : Token} {ts : List Token} {text : String} (is : t.kind = .word text)
    (payable : text ≠ "payable") {ty : TypeExpr}
    (other : ∀ external, ty = .function external → text ∉ functionWords) : ty.Apart (t :: ts) := by
  have peeked : peekWord? (t :: ts) = some text := word_of_kind is
  cases ty with
  | named name line => exact ⟨by simp [atPunct, is], by simpa [peeked] using payable⟩
  | function external =>
    rintro word known eq
    exact other external rfl (Option.some.inj (peeked.symm.trans eq) ▸ known)
  | mapping key value => trivial
  | array element length line => trivial

theorem IsName.apart {text : String} (name : IsName text) : text ∉ functionWords := fun known =>
  have within : ∀ word ∈ functionWords, word ∈ keywords := by decide
  name (within text known)

theorem apart_name {t : Token} {ts : List Token} {text : String} (is : t.kind = .word text)
    (name : IsName text) (ty : TypeExpr) : ty.Apart (t :: ts) :=
  apart_word is (fun eq => name (eq ▸ by decide)) fun _ _ => name.apart

theorem parameter_apart {ps : List Token} (parameter : Parameter ps) {t : Token} (other : t.word? = none)
    (dot : t.kind ≠ .punct '.') (bracket : t.kind ≠ .punct '[') :
    (∀ ty : TypeExpr, ty.Apart (ps ++ t :: rest)) ∧ atPunct '[' (ps ++ t :: rest) = false ∧
      skipWord (ps ++ t :: rest) = t :: rest := by
  cases parameter with
  | none => exact ⟨apart_punct other dot, decide_eq_false bracket, if_neg (by simp [peekWord?, other])⟩
  | named is name =>
    have word : peekWord? (_ :: t :: rest) = _ := word_of_kind is
    exact ⟨apart_name is name, by simp [atPunct, is], if_pos (by simp [word])⟩

theorem takeWord_of_kind {t : Token} {text : String} (is : t.kind = .word text) (expected : String) :
    takeWord expected (t :: rest) = .ok (text, rest) := by
  rw [takeWord, word_of_kind is]

theorem takePath_word {t : Token} {name : String} (is : t.kind = .word name)
    (dot : atPunct '.' rest = false) :
    takePath (t :: rest) = .ok (name, rest) := by
  have path : lastPart name rest = .ok (name, rest) := by
    match rest, dot with
    | [], _ => rfl
    | [u], dot => exact if_neg (of_decide_eq_false dot)
    | u :: v :: us, dot => exact if_neg (of_decide_eq_false dot)
  exact (bind_of_eq_ok (takeWord_of_kind is _)).trans path

theorem takeNamedType_word {t : Token} {name : String} (is : t.kind = .word name)
    (dot : atPunct '.' rest = false) :
    takeNamedType t.line (t :: rest) =
      .ok (.named name t.line, if name = "address" then skipThisWord "payable" rest else rest) :=
  bind_of_eq_ok (takePath_word is dot)

theorem payable_skipped {name : String} {ps : List Token} (payable : Payable name ps)
    (apart : peekWord? rest ≠ some "payable") :
    (if name = "address" then skipThisWord "payable" (ps ++ rest) else ps ++ rest) = rest := by
  cases payable with
  | none => simp [skipThisWord, apart]
  | word is =>
    rw [if_pos rfl]
    exact if_pos (word_of_kind is)

theorem takeType_named {depth : Nat} {t : Token} {name : String} (is : t.kind = .word name)
    (plain : IsName name) : takeType (depth + 1) (t :: rest) =
      takeNamedType t.line (t :: rest) >>= fun taken => takeBrackets taken.1 none taken.2 := by
  rw [takeType, word_of_kind is]
  split
  · next eq => exact absurd (Option.some.inj eq ▸ plain) (by decide)
  · next eq => exact absurd (Option.some.inj eq ▸ plain) (by decide)
  · rfl
  · contradiction

def takeMapping (depth : Nat) (ts : List Token) : Parsed (Taken TypeExpr) := do
  let ts ← takePunct '(' ts
  let (key, ts) ← takeType depth ts
  let ts ← takeKind .arrow "`=>`" (skipWord ts)
  let (value, ts) ← takeType depth ts
  let ts ← takePunct ')' (skipWord ts)
  .ok (.mapping key value, ts)

theorem takeType_mapping {depth : Nat} {t : Token} (begins : t.kind = .word "mapping") :
    takeType (depth + 1) (t :: rest) =
      takeMapping depth rest >>= fun taken => takeBrackets taken.1 none taken.2 := by
  rw [takeType, word_of_kind begins]
  simp only [takeMapping, bind_assoc]

theorem takeType_function {depth : Nat} {t : Token} (begins : t.kind = .word "function") :
    takeType (depth + 1) (t :: rest) =
      takeFunctionType rest >>= fun taken => takeBrackets taken.1 none taken.2 := by
  rw [takeType, word_of_kind begins]
  rfl

/-- A type is read as it is spelled, and the brackets behind it go on it. An array is read so too: its last
brackets stand behind its element. -/
theorem takeType_brackets {ty : TypeExpr} {ts : List Token} (spelled : ty.Spelled ts) (plain : ty.Plain)
    (given : ty.LengthsGiven) (apart : ty.Apart rest) {depth : Nat} (enough : ts.length ≤ depth) :
    ∃ read : TypeExpr, read.unlined = ty.unlined ∧
      takeType depth (ts ++ rest) = takeBrackets read none rest := by
  induction spelled generalizing rest depth with
  | @named t name line ps is payable =>
    obtain ⟨depth, rfl⟩ := Nat.exists_eq_add_one.mpr (Nat.zero_lt_of_lt enough)
    refine ⟨.named name t.line, rfl, ?_⟩
    have dot : atPunct '.' (ps ++ rest) = false := by
      cases payable with
      | none => exact apart.1
      | word added => simp [atPunct, added]
    rw [List.cons_append, takeType_named is plain, takeNamedType_word is dot, payable_skipped payable apart.2]
    rfl
  | @mapping first opening arrow closing key value ks ps vs qs begins opens _ keyName is _ valueName closes ihk
      ihv =>
    obtain ⟨depth, rfl⟩ := Nat.exists_eq_add_one.mpr (Nat.zero_lt_of_lt enough)
    simp only [List.length_cons, List.length_append] at enough
    -- The key ends before its name or the arrow, the value before its name or the parenthesis.
    obtain ⟨apartKey, noKeyBracket, keyAlone⟩ := @parameter_apart (vs ++ (qs ++ closing :: rest)) _ keyName
      arrow (by simp [Token.word?, is]) (by simp [is]) (by simp [is])
    obtain ⟨apartValue, noValueBracket, valueAlone⟩ := @parameter_apart rest _ valueName
      closing (by simp [Token.word?, closes]) (by simp [closes]) (by simp [closes])
    obtain ⟨readKey, sameKey, takenKey⟩ := @ihk _ plain.1 given.1 (apartKey key) depth (by omega)
    obtain ⟨readValue, sameValue, takenValue⟩ := @ihv _ plain.2 given.2 (apartValue value) depth (by omega)
    refine ⟨.mapping readKey readValue, by simp only [TypeExpr.unlined, sameKey, sameValue], ?_⟩
    have taken : takeMapping depth
        (opening :: (ks ++ (ps ++ arrow :: (vs ++ (qs ++ closing :: rest))))) =
          .ok (.mapping readKey readValue, rest) := by
      refine bind_eq_ok.mpr ⟨_, if_pos opens, ?_⟩
      refine bind_eq_ok.mpr ⟨_, takenKey.trans (takeBrackets_end noKeyBracket), ?_⟩
      refine bind_eq_ok.mpr ⟨_, (congrArg _ keyAlone).trans (if_pos is), ?_⟩
      refine bind_eq_ok.mpr ⟨_, takenValue.trans (takeBrackets_end noValueBracket), ?_⟩
      exact bind_eq_ok.mpr ⟨_, (congrArg _ valueAlone).trans (if_pos closes), rfl⟩
    simp only [List.cons_append, List.append_assoc, List.nil_append]
    rw [takeType_mapping begins, bind_of_eq_ok taken]
  | @function first external ps ws begins parameters words =>
    obtain ⟨depth, rfl⟩ := Nat.exists_eq_add_one.mpr (Nat.zero_lt_of_lt enough)
    refine ⟨.function external, rfl, ?_⟩
    have taken : takeFunctionType (ps ++ (ws ++ rest)) = .ok (.function external, rest) :=
      bind_eq_ok.mpr ⟨_, skipParens_parens parameters,
        bind_eq_ok.mpr ⟨_, takeFunctionWords_spelled words apart, rfl⟩⟩
    rw [List.cons_append, List.append_assoc, takeType_function begins, bind_of_eq_ok taken]
  | @dynamic opening closing element es line typed opens closes ih =>
    have next : element.Apart (opening :: closing :: rest) :=
      apart_punct (by simp [Token.word?, opens]) (by simp [opens]) element
    have shorter : es.length ≤ depth := by simp at enough; omega
    obtain ⟨read, same, taken⟩ := ih plain.1 given.1 next shorter
    refine ⟨.array read none opening.line, congrArg (TypeExpr.array · none 0) same, ?_⟩
    rw [List.append_assoc]
    refine taken.trans ?_
    rw [takeBrackets, if_pos opens]
    exact @takeBrackets_inside rest (fun _ => true) _ ⟨opening.line, 0, []⟩ [] rfl _ closes
  | @fixed opening closing element es us ls line typed opens same closes ih =>
    have next : element.Apart (opening :: (ls ++ closing :: rest)) :=
      apart_punct (by simp [Token.word?, opens]) (by simp [opens]) element
    have shorter : es.length ≤ depth := by simp at enough; omega
    obtain ⟨read, alike, taken⟩ := ih plain.1 given.1 next shorter
    have inside : balancedInside '[' ']' (kinds ls) = true := same ▸ (plain.2 us rfl).brackets
    have some_length : ls ≠ [] := by
      rintro rfl
      exact given.2 (congrArg some (List.map_eq_nil_iff.mp same.symm))
    refine ⟨.array read (some ls) opening.line, ?_, ?_⟩
    · simp only [TypeExpr.unlined, alike, Option.map_some, unlined_eq_iff.mpr same]
    · have closed := @takeBrackets_inside rest _ read ⟨opening.line, 0, []⟩ ls inside _ closes
      simp only [List.append_assoc, List.cons_append, List.nil_append]
      rw [taken, takeBrackets, if_pos opens, closed]
      simp [OpenBracket.close, some_length]

theorem typeExpr_spelled {ty : TypeExpr} {ts : List Token} (spelled : ty.Spelled ts) (plain : ty.Plain)
    (given : ty.LengthsGiven) (apart : ty.Apart rest) (bracket : atPunct '[' rest = false) :
    ∃ read : TypeExpr, read.unlined = ty.unlined ∧ typeExpr (ts ++ rest) = .ok (read, rest) := by
  have enough : ts.length ≤ (ts ++ rest).length := by simp
  obtain ⟨read, same, taken⟩ := takeType_brackets spelled plain given apart enough
  exact ⟨read, same, taken.trans (takeBrackets_end bracket)⟩

end

theorem spelled_begins {ty : TypeExpr} {ts : List Token} (spelled : ty.Spelled ts) (plain : ty.Plain) :
    ∃ t text us, ts = t :: us ∧ t.kind = .word text ∧ (IsName text ∨ text = "mapping" ∨
      (text = "function" ∧ ty.IsOfFunctions ∧ atPunct '(' us = true)) := by
  induction spelled with
  | named is payable => exact ⟨_, _, _, rfl, is, .inl plain⟩
  | mapping begins => exact ⟨_, _, _, rfl, begins, .inr (.inl rfl)⟩
  | function begins parameters words =>
    obtain ⟨opens, -, -⟩ := parameters
    exact ⟨_, _, _, rfl, begins, .inr (.inr ⟨rfl, trivial, decide_eq_true opens⟩)⟩
  | dynamic _ _ _ ih | fixed _ _ _ _ ih =>
    obtain ⟨t, text, us, rfl, begins, known⟩ := ih plain.1
    refine ⟨t, text, _, rfl, begins, known.imp_right (Or.imp_right ?_)⟩
    rintro ⟨is, functions, opens⟩
    refine ⟨is, functions, ?_⟩
    cases us with
    | nil => contradiction
    | cons u us => exact opens

theorem balancedHead_word {depth : Nat} {without : List Char} {t : Token} {ts : List Token} {text : String}
    (is : t.kind = .word text) :
    balancedHead depth without (kinds (t :: ts)) = balancedHead depth without (kinds ts) := by
  simp [balancedHead, balanced, is]

theorem balancedHead_functionWords {before after : Bool} {ws : List Token}
    (words : FunctionWords before after ws) (without : List Char) :
    balancedHead 0 without (kinds ws) = true := by
  induction words with
  | nil => rfl
  | external is _ ih => rwa [balancedHead_word is]
  | other is _ _ ih => rwa [balancedHead_word is]
  | returns is results _ ih =>
    rw [balancedHead_word is]
    exact balancedHead_append (balancedHead_parens results without) ih

theorem balancedHead_parameter {ps : List Token} (parameter : Parameter ps) (without : List Char) :
    balancedHead 0 without (kinds ps) = true := by
  cases parameter with
  | none => rfl
  | named is name => rw [balancedHead_word is]; rfl

theorem balancedHead_spelled {ty : TypeExpr} {ts : List Token} (spelled : ty.Spelled ts) (plain : ty.Plain) :
    balancedHead 0 headEnds (kinds ts) = true := by
  induction spelled with
  | named is payable =>
    rw [balancedHead_word is]
    cases payable with
    | none => rfl
    | word added => rw [balancedHead_word added]; rfl
  | @mapping first opening arrow closing key value ks ps vs qs begins opens _ keyName is _ valueName closes ihk
      ihv =>
    have last : balancedHead 1 headEnds (kinds [closing]) = true := by simp [balancedHead, balanced, closes]
    have valued : balancedHead 1 headEnds (kinds (vs ++ (qs ++ [closing]))) = true :=
      balancedHead_append (ihv plain.2)
        (balancedHead_append (balancedHead_parameter valueName headEnds) last)
    have behind : balancedHead 1 headEnds (kinds (arrow :: (vs ++ (qs ++ [closing])))) = true := by
      simpa [balancedHead, balanced, is] using valued
    have keyed : balancedHead 1 headEnds (kinds (ks ++ (ps ++ arrow :: (vs ++ (qs ++ [closing]))))) = true :=
      balancedHead_append (ihk plain.1)
        (balancedHead_append (balancedHead_parameter keyName headEnds) behind)
    simpa [balancedHead, balanced, begins, opens] using keyed
  | function begins parameters words =>
    rw [balancedHead_word begins]
    exact balancedHead_append (balancedHead_parens parameters headEnds)
      (balancedHead_functionWords words headEnds)
  | dynamic _ opens closes ih =>
    refine balancedHead_append (ih plain.1) ?_
    simp [balancedHead, balanced, opens, closes]
  | @fixed opening closing element es us ls line _ opens same closes ih =>
    have inside : balancedHead 0 headEnds (kinds ls) = true := same ▸ (plain.2 us rfl).parentheses
    have closed : balancedHead 0 headEnds (kinds [closing]) = true := by simp [balancedHead, balanced, closes]
    refine balancedHead_append (ih plain.1) ?_
    have := balancedHead_append inside closed
    simpa [balancedHead, balanced, opens] using this

end ContractRegistry.Source
