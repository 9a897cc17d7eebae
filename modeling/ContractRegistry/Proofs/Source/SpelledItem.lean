import ContractRegistry.Proofs.Source.SpelledType

/-!
Variables, structs, enums and value types are read as they are spelled.

The word `function` may begin a variable. Whether it does is told by what ends the head that begins
there, and the head of a variable ends in its name.
-/
namespace ContractRegistry.Source

section
variable {rest : List Token}

theorem takeAttributes_inside (a : Attributes) (depth : Nat) (ts : List Token) :
    takeAttributes a (depth + 1) ts = skipPastClosing '(' ')' depth ts >>= takeAttributes a 0 :=
  inside_parens (takeAttributes a) (fun _ => rfl) (fun _ _ _ => rfl) depth ts

theorem attributes_begin {a b : Attributes} {words : List Token} (attributes : AttributeWords a b words)
    {name : Token} {text : String} (named : name.kind = .word text) :
    ∃ u us first, words ++ name :: rest = u :: us ∧ u.kind = .word first := by
  cases attributes with
  | nil => exact ⟨name, rest, text, rfl, named⟩
  | word is added _ => exact ⟨_, _, _, rfl, is⟩
  | overrides is _ _ => exact ⟨_, _, _, rfl, is⟩

theorem attributes_apart {a b : Attributes} {words : List Token} (attributes : AttributeWords a b words)
    {ty : TypeExpr} (apart : ∀ external, ty = .function external → peekWord? words ≠ some "internal")
    {name : Token} {text : String} (named : name.kind = .word text) (plain : IsName text) :
    ty.Apart (words ++ name :: rest) := by
  cases attributes with
  | nil => exact apart_name named plain ty
  | @word _ b _ t word ts is added others =>
    -- Of the words that go on a type of functions only one is an attribute.
    have unknown : ∀ w ∈ functionWords, w ≠ "internal" → a.add? w = none := by
      simp [functionWords, Attributes.add?]
    refine apart_word is ?_ fun external eq known => ?_
    · rintro rfl
      simp [Attributes.add?] at added
    · have other : word ≠ "internal" := by
        rintro rfl
        exact apart external eq (word_of_kind is)
      simp [unknown word known other] at added
  | overrides is _ _ => exact apart_word is (by decide) fun _ _ => by decide

theorem takeAttributes_spelled {a b : Attributes} {words : List Token}
    (attributes : AttributeWords a b words) {name : Token} {text : String} (named : name.kind = .word text)
    (ends : nameEnds rest = true) :
    takeAttributes a 0 (words ++ name :: rest) = .ok ((b, text), rest) := by
  induction attributes with
  | nil a =>
    rw [List.nil_append, takeAttributes, word_of_kind named]
    exact if_pos ends
  | @word a b c t word ts is added others ih =>
    -- The word is not the name, since another word is behind it.
    obtain ⟨u, us, first, eq, begins⟩ := @attributes_begin rest _ _ _ others name text named
    rw [List.cons_append, takeAttributes, word_of_kind is]
    have goes : nameEnds (u :: us) = false := by simp [nameEnds, atPunct, begins]
    have bare : ¬ (word = "override" ∧ u.kind = .punct '(') := by simp [begins]
    rw [eq] at ih ⊢
    simp only [goes, added, if_neg bare]
    exact ih
  | @overrides a c t ps ts is bases others ih =>
    obtain ⟨first, us, rfl, opens, skipped⟩ := @skipPastClosing_parens (ts ++ name :: rest) _ bases
    rw [List.cons_append, List.append_assoc, List.cons_append, takeAttributes, word_of_kind is]
    have goes : nameEnds (first :: (us ++ (ts ++ name :: rest))) = false := by
      simp [nameEnds, atPunct, opens]
    simp only [goes, Attributes.add?, opens]
    rw [takeAttributes_inside]
    exact (bind_of_eq_ok skipped).trans ih

theorem takeInit_spelled {init : Option (List Token)} {ending : List Token}
    (spelled : InitSpelled init ending)
    (plain : ∀ ts, init = some ts → balancedStatement 0 (kinds ts) = true) :
    nameEnds (ending ++ rest) = true ∧ ∃ read : Option (List Token),
      read.map (List.map Token.unlined) = init.map (List.map Token.unlined) ∧
        takeInit (ending ++ rest) = .ok (read, rest) := by
  cases spelled with
  | @none t ends =>
    refine ⟨by simp [nameEnds, atPunct, ends], none, rfl, ?_⟩
    rw [takeInit, if_neg (by simp [atPunct, ends])]
    exact bind_eq_ok.mpr ⟨rest, if_pos ends, rfl⟩
  | @some first last us ts equals same ends =>
    have inside : balancedStatement 0 (kinds ts) = true := same ▸ plain us rfl
    refine ⟨by simp [nameEnds, atPunct, equals], some ts, congrArg some (unlined_eq_iff.mpr same), ?_⟩
    rw [takeInit, if_pos (by simp [atPunct, equals])]
    refine bind_eq_ok.mpr ⟨(ts, rest), ?_, rfl⟩
    simpa using upToSemicolon_balanced inside ends

theorem takeVariable_spelled {v : VariableItem} {ts : List Token} (spelled : v.Spelled ts) (plain : v.Plain)
    (given : v.ty.LengthsGiven) :
    ∃ read : VariableItem, read.unlined = v.unlined ∧ takeVariable (ts ++ rest) = .ok (read, rest) := by
  obtain @⟨name, ty, words, ending, typed, attributes, apart, named, ends⟩ := spelled
  obtain ⟨nameEnds, init, sameInit, takenInit⟩ := @takeInit_spelled rest _ _ ends plain.init
  have behind := @attributes_apart (ending ++ rest) _ _ _ attributes _ apart _ _ named plain.name
  obtain ⟨u, us, first, eq, begins⟩ := @attributes_begin (ending ++ rest) _ _ _ attributes _ _ named
  have bracket : atPunct '[' (words ++ name :: (ending ++ rest)) = false := by
    rw [eq]
    simp [atPunct, begins]
  obtain ⟨read, same, taken⟩ := typeExpr_spelled typed plain.type given behind bracket
  refine ⟨⟨v.name, read, v.visibility, v.mutability, init⟩, ?_, ?_⟩
  · rw [VariableItem.unlined, same, sameInit]
    rfl
  · simp only [List.append_assoc, List.cons_append]
    refine bind_eq_ok.mpr ⟨_, taken, ?_⟩
    refine bind_eq_ok.mpr ⟨_, takeAttributes_spelled attributes named nameEnds, ?_⟩
    exact bind_eq_ok.mpr ⟨_, takenInit, rfl⟩

theorem balancedHead_attributes {a b : Attributes} {words : List Token}
    (attributes : AttributeWords a b words) (without : List Char) :
    balancedHead 0 without (kinds words) = true := by
  induction attributes with
  | nil => rfl
  | word is _ _ ih => rwa [balancedHead_word is]
  | overrides is bases _ ih =>
    rw [balancedHead_word is]
    exact balancedHead_append (balancedHead_parens bases without) ih

theorem headEndsInName_spelled {init : Option (List Token)} {ending : List Token}
    (spelled : InitSpelled init ending) {name : Token} {text : String} (named : name.kind = .word text)
    (plain : IsName text) (last : Option TokenKind) :
    headEndsInName 0 last (name :: (ending ++ rest)) = true := by
  have words : ∀ word, isFunctionWord word = true → word ∈ keywords := by
    intro word known
    have within : ∀ w ∈ ["external", "internal", "public", "private", "view", "pure", "payable", "constant",
        "virtual", "override"], w ∈ keywords := by decide
    exact within word (List.contains_iff_mem.mp known)
  have other : isFunctionWord text = false := by
    rw [Bool.eq_false_iff]
    exact fun known => plain (words text known)
  cases spelled with
  | none ends => simp [headEndsInName, named, ends, isVariableName, other]
  | some equals same ends => simp [headEndsInName, named, equals]

theorem declaresVariable_spelled {v : VariableItem} {t : Token} {ts : List Token}
    (spelled : v.Spelled (t :: ts)) (plain : v.Plain) (begins : t.kind = .word "function") :
    declaresVariable (ts ++ rest) = true := by
  generalize all : t :: ts = tokens at spelled
  obtain @⟨name, ty, words, ending, typed, attributes, apart, named, ends⟩ := spelled
  obtain ⟨first, text, us, rfl, is, known⟩ := spelled_begins typed plain.type
  obtain ⟨rfl, rfl⟩ : t = first ∧ ts = us ++ (words ++ name :: ending) := by simpa using all
  obtain rfl : text = "function" := TokenKind.word.inj (is.symm.trans begins)
  obtain ⟨-, -, opens⟩ := (known.resolve_left (by decide)).resolve_left (by decide)
  -- Neither the type nor the attributes end the head, so that the search comes to the name.
  have head : balancedHead 0 headEnds (kinds (us ++ words)) = true := by
    refine balancedHead_append ?_ (balancedHead_attributes attributes headEnds)
    rw [← balancedHead_word begins]
    exact balancedHead_spelled typed plain.type
  obtain ⟨last, same⟩ := @headEndsInName_balanced (name :: (ending ++ rest)) _ _ _ (by decide) (by decide)
    (by decide) head none
  simp only [List.append_assoc, List.cons_append] at same ⊢
  rw [declaresVariable, same, headEndsInName_spelled ends named plain.name, Bool.and_true]
  cases us with
  | nil => contradiction
  | cons u us => exact opens

theorem takeFields_spelled {fields : List (String × TypeExpr)} {ts : List Token}
    (spelled : FieldsSpelled fields ts) (plain : ∀ f ∈ fields, IsName f.1 ∧ f.2.Plain)
    (given : ∀ f ∈ fields, f.2.LengthsGiven) {closing : Token} (closes : closing.kind = .punct '\x7d')
    {rounds : Nat} (enough : ts.length < rounds) :
    ∃ read : List (String × TypeExpr),
      (read.map fun f => (f.1, f.2.unlined)) = (fields.map fun f => (f.1, f.2.unlined)) ∧
        takeFields rounds (ts ++ closing :: rest) = .ok (read, rest) := by
  induction spelled generalizing rounds with
  | nil =>
    obtain ⟨rounds, rfl⟩ := Nat.exists_eq_add_one.mpr enough
    exact ⟨[], rfl, if_pos closes⟩
  | @cons text ty fields name semicolon ts more typed named ends others ih =>
    obtain ⟨rounds, rfl⟩ := Nat.exists_eq_add_one.mpr (Nat.zero_lt_of_lt enough)
    obtain ⟨first, others'⟩ := List.forall_mem_cons.mp plain
    obtain ⟨firstGiven, othersGiven⟩ := List.forall_mem_cons.mp given
    obtain ⟨t, word, us, rfl, begins, -⟩ := spelled_begins typed first.2
    have fewer : more.length < rounds := by simp at enough; omega
    obtain ⟨read, same, taken⟩ := ih others' othersGiven fewer
    have bracket : atPunct '[' (name :: semicolon :: (more ++ closing :: rest)) = false := by
      simp [atPunct, named]
    obtain ⟨readTy, sameTy, takenTy⟩ :=
      typeExpr_spelled typed first.2 firstGiven (apart_name named first.1 ty) bracket
    refine ⟨(text, readTy) :: read, by simp [same, sameTy], ?_⟩
    simp only [List.cons_append, List.append_assoc] at takenTy ⊢
    rw [takeFields, if_neg (by simp [begins])]
    refine bind_eq_ok.mpr ⟨_, takenTy, bind_eq_ok.mpr ⟨_, takeWord_of_kind named _, ?_⟩⟩
    exact bind_eq_ok.mpr ⟨_, if_pos ends, bind_eq_ok.mpr ⟨_, taken, rfl⟩⟩

theorem takeStruct_spelled {s : StructItem} {ts : List Token} (spelled : s.Spelled ts) (plain : s.Plain)
    (given : ∀ f ∈ s.fields, f.2.LengthsGiven) :
    ∃ t us, ts = t :: us ∧ t.kind = .word "struct" ∧ ∀ rest, ∃ read : StructItem, read.unlined = s.unlined ∧
      takeStruct (us ++ rest) = .ok (read, rest) := by
  obtain @⟨first, name, opening, closing, fs, begins, named, opens, listed, closes⟩ := spelled
  refine ⟨first, _, rfl, begins, fun rest => ?_⟩
  have enough : fs.length < (fs ++ closing :: rest).length := by simp
  obtain ⟨fields, same, taken⟩ := @takeFields_spelled rest _ _ listed plain.fields given _ closes _ enough
  refine ⟨⟨s.name, fields⟩, by rw [StructItem.unlined, same]; rfl, ?_⟩
  simp only [List.cons_append, List.append_assoc, List.nil_append]
  refine bind_eq_ok.mpr ⟨_, takeWord_of_kind named _, ?_⟩
  exact bind_eq_ok.mpr ⟨_, if_pos opens, bind_eq_ok.mpr ⟨_, taken, rfl⟩⟩

theorem countMembers_spelled {members count : Nat} {ts : List Token} (spelled : MembersSpelled members ts)
    {closing : Token} (closes : closing.kind = .punct '\x7d') :
    countMembers count (ts ++ closing :: rest) = .ok (count + members, rest) := by
  induction spelled generalizing count with
  | nil => simp [countMembers, Token.word?, closes]
  | word is _ ih =>
    rw [List.cons_append, countMembers, word_of_kind is, if_pos (by simp), ih, Nat.add_assoc, Nat.add_comm 1]
  | @comma _ t _ is _ ih =>
    have other : ¬ t.word?.isSome := by simp [Token.word?, is]
    rw [List.cons_append, countMembers, if_neg other, if_pos is, ih]

theorem takeEnum_spelled {e : EnumItem} {ts : List Token} (spelled : e.Spelled ts) :
    ∃ t us, ts = t :: us ∧ t.kind = .word "enum" ∧ ∀ rest, takeEnum (us ++ rest) = .ok (e, rest) := by
  obtain @⟨first, name, opening, closing, ms, begins, named, opens, listed, closes⟩ := spelled
  refine ⟨first, _, rfl, begins, fun rest => ?_⟩
  have counted : countMembers 0 (ms ++ closing :: rest) = .ok (e.members, rest) := by
    rw [countMembers_spelled listed closes, Nat.zero_add]
  simp only [List.cons_append, List.append_assoc, List.nil_append]
  refine bind_eq_ok.mpr ⟨_, takeWord_of_kind named _, ?_⟩
  exact bind_eq_ok.mpr ⟨_, if_pos opens, bind_eq_ok.mpr ⟨_, counted, rfl⟩⟩

theorem takeValueType_spelled {v : ValueTypeItem} {ts : List Token} (spelled : v.Spelled ts) :
    ∃ t us, ts = t :: us ∧ t.kind = .word "type" ∧ ∀ rest, ∃ read : ValueTypeItem,
      read.unlined = v.unlined ∧ takeValueType (us ++ rest) = .ok (read, rest) := by
  obtain @⟨first, name, is, underlying, semicolon, ps, begins, named, word, type, payable, ends⟩ := spelled
  refine ⟨first, _, rfl, begins, fun rest => ⟨⟨v.name, v.underlying, name.line⟩, rfl, ?_⟩⟩
  have skipped := @payable_skipped (semicolon :: rest) _ _ payable (by simp [peekWord?, Token.word?, ends])
  simp only [List.cons_append, List.append_assoc, List.nil_append]
  refine bind_eq_ok.mpr ⟨_, takeWord_of_kind named _, bind_eq_ok.mpr ⟨_, if_pos word, ?_⟩⟩
  refine bind_eq_ok.mpr ⟨_, takeWord_of_kind type _, ?_⟩
  exact bind_eq_ok.mpr ⟨rest, (congrArg _ skipped).trans (if_pos ends), rfl⟩

theorem takeBase_spelled {base : String} {ts : List Token} (spelled : BaseSpelled base ts) {t : Token}
    (dot : t.kind ≠ .punct '.') (opening : t.kind ≠ .punct '(') :
    ∃ left, takePath (ts ++ t :: rest) = .ok (base, left) ∧ skipOptionalParens left = .ok (t :: rest) := by
  cases spelled with
  | bare is =>
    exact ⟨t :: rest, takePath_word is (decide_eq_false dot), if_neg (by simp [atPunct, opening])⟩
  | @called _ ps is arguments =>
    have skipped := @skipParens_parens (t :: rest) _ arguments
    obtain ⟨opens, -, -⟩ := arguments
    refine ⟨_, takePath_word is (by simp [atPunct, opens]), (if_pos ?_).trans skipped⟩
    simp [atPunct, opens]

theorem base_nonempty {base : String} {ts : List Token} (spelled : BaseSpelled base ts) : 0 < ts.length := by
  cases spelled <;> exact Nat.zero_lt_succ _

theorem takeBases_spelled {bases : List String} {ts : List Token} (spelled : BasesSpelled bases ts)
    {opening : Token} (opens : opening.kind = .punct '\x7b') {rounds : Nat} (enough : ts.length ≤ rounds) :
    takeBases rounds (ts ++ opening :: rest) = .ok (bases, opening :: rest) := by
  induction spelled generalizing rounds with
  | last first =>
    obtain ⟨rounds, rfl⟩ := Nat.exists_eq_add_one.mpr (Nat.lt_of_lt_of_le (base_nonempty first) enough)
    obtain ⟨left, taken, skipped⟩ :=
      @takeBase_spelled rest _ _ first opening (by simp [opens]) (by simp [opens])
    refine bind_eq_ok.mpr ⟨_, taken, bind_eq_ok.mpr ⟨_, skipped, ?_⟩⟩
    exact if_neg (by simp [atPunct, opens])
  | @more base bases comma ts us first is others ih =>
    rw [List.length_append, List.length_cons] at enough
    obtain ⟨rounds, rfl⟩ := Nat.exists_eq_add_one.mpr (Nat.zero_lt_of_lt enough)
    have fewer : us.length ≤ rounds := by omega
    obtain ⟨left, taken, skipped⟩ :=
      @takeBase_spelled (us ++ opening :: rest) _ _ first comma (by simp [is]) (by simp [is])
    rw [List.append_assoc, List.cons_append]
    refine bind_eq_ok.mpr ⟨_, taken, bind_eq_ok.mpr ⟨_, skipped, ?_⟩⟩
    refine (if_pos (decide_eq_true is)).trans ?_
    exact bind_eq_ok.mpr ⟨_, ih fewer, rfl⟩

theorem takeOptionalBases_spelled {bases : List String} {ts : List Token} (spelled : HeritageSpelled bases ts)
    {opening : Token} (opens : opening.kind = .punct '\x7b') :
    takeOptionalBases (ts ++ opening :: rest) = .ok (bases, opening :: rest) := by
  cases spelled with
  | none => exact if_neg (by simp [peekWord?, Token.word?, opens])
  | @some _ t ts is listed =>
    have enough : ts.length ≤ (t :: ts ++ opening :: rest).length := by simp; omega
    exact (if_pos (word_of_kind is)).trans (takeBases_spelled listed opens enough)

end

end ContractRegistry.Source
