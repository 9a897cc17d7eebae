import ContractRegistry.Proofs.Source.SpelledItem
import ContractRegistry.Proofs.Source.Walk

/-!
Reading undoes printing.

A source is read as it is spelled, whichever spelling it has, up to the lines. Outside of contracts the
word `function` always begins a function, so that constants are not of functions; brackets without
tokens between them have no length.
-/
namespace ContractRegistry.Source

theorem takeMember_variable {text : String} (known : IsName text ∨ text = "mapping") (ts : List Token) :
    takeMember text ts = takeVariable ts >>= fun taken => .ok (.ofVariable taken.1, taken.2) := by
  have other : ∀ word ∈ keywords, word ≠ "mapping" → text ≠ word := by
    rintro word keyword apart rfl
    exact known.elim (· keyword) apart
  unfold takeMember
  split
  case h_12 => rfl
  all_goals exact absurd rfl (other _ (by decide) (by decide))

theorem takeItem_variable {text : String} (known : IsName text ∨ text = "mapping") (ts : List Token) :
    contractKind? text = none ∧
      takeItem text ts = takeVariable ts >>= fun taken => .ok (.ofVariable taken.1, taken.2) := by
  have other : ∀ word ∈ keywords, word ≠ "mapping" → text ≠ word := by
    rintro word keyword apart rfl
    exact known.elim (· keyword) apart
  constructor
  · unfold contractKind?
    split
    case h_5 => rfl
    all_goals exact absurd rfl (other _ (by decide) (by decide))
  · unfold takeItem
    split
    case h_14 => rfl
    all_goals exact absurd rfl (other _ (by decide) (by decide))

theorem variable_begins {v : VariableItem} {ts : List Token} (spelled : v.Spelled ts) (plain : v.Plain) :
    ∃ t text us, ts = t :: us ∧ t.kind = .word text ∧
      (IsName text ∨ text = "mapping" ∨ (text = "function" ∧ v.ty.IsOfFunctions)) := by
  obtain @⟨name, ty, words, ending, typed, attributes, apart, named, ends⟩ := spelled
  obtain ⟨t, text, us, rfl, begins, known⟩ := spelled_begins typed plain.type
  exact ⟨t, text, _, rfl, begins, known.imp_right (Or.imp_right fun f => ⟨f.1, f.2.1⟩)⟩

section
variable {rest : List Token}

theorem step_variable {v : VariableItem} {ts : List Token} (spelled : v.Spelled ts) (plain : v.Plain)
    (given : v.ty.LengthsGiven) :
    ∃ read : VariableItem, read.unlined = v.unlined ∧ ∀ told c m,
      Step (.inside told c m (ts ++ rest)) (.inside told c (m.append (.ofVariable read)) rest) := by
  obtain ⟨t, text, us, rfl, begins, known⟩ := variable_begins spelled plain
  obtain ⟨read, same, taken⟩ := @takeVariable_spelled rest _ _ spelled plain given
  refine ⟨read, same, fun told c m => .member begins ?_⟩
  rcases or_assoc.mpr known with other | ⟨rfl, -⟩
  · rw [takeMember_variable other]
    exact bind_of_eq_ok taken
  · have declared := @declaresVariable_spelled rest _ _ _ spelled plain begins
    exact (if_pos declared).trans (bind_of_eq_ok taken)

theorem reaches_variables {vs : List VariableItem} {ts : List Token}
    (all : AllSpelled VariableItem.Spelled vs ts) (plain : ∀ v ∈ vs, v.Plain)
    (given : ∀ v ∈ vs, v.ty.LengthsGiven) :
    ∃ read : List VariableItem, read.map VariableItem.unlined = vs.map VariableItem.unlined ∧ ∀ told c m,
      Reaches (.inside told c m (ts ++ rest)) (.inside told c (m.append ⟨read, .empty⟩) rest) := by
  induction all with
  | nil =>
    refine ⟨[], rfl, fun told c m => ?_⟩
    rw [show Members.mk [] .empty = .none from rfl, members_append_none]
    exact .refl
  | @cons v vs ts us first others ih =>
    obtain ⟨plainFirst, plainOthers⟩ := List.forall_mem_cons.mp plain
    obtain ⟨givenFirst, givenOthers⟩ := List.forall_mem_cons.mp given
    obtain ⟨reads, alike, path⟩ := ih plainOthers givenOthers
    obtain ⟨read, same, step⟩ := @step_variable (us ++ rest) _ _ first plainFirst givenFirst
    refine ⟨read :: reads, by simp [same, alike], fun told c m => ?_⟩
    have onward := path told c (m.append (.ofVariable read))
    rw [members_append_assoc] at onward
    rw [List.append_assoc]
    exact .head (step told c m) onward

theorem kind_begins {kind : ContractKind} {ks : List Token} (spelled : KindSpelled kind ks) :
    ∃ t text us, ks = t :: us ∧ t.word? = some text ∧ contractKind? text = some kind ∧
      skipKind kind (us ++ rest) = .ok rest := by
  cases spelled with
  | plain is => exact ⟨_, _, _, rfl, word_of_kind is, rfl, rfl⟩
  | abstract is word => exact ⟨_, _, _, rfl, word_of_kind is, rfl, (if_pos rfl).trans (if_pos word)⟩
  | interface is => exact ⟨_, _, _, rfl, word_of_kind is, rfl, rfl⟩
  | library is => exact ⟨_, _, _, rfl, word_of_kind is, rfl, rfl⟩

theorem takeHeading_spelled {c : ContractItem} {name opening : Token} {ks bs : List Token}
    (kind : KindSpelled c.kind ks) (named : name.kind = .word c.name) (heritage : HeritageSpelled c.bases bs)
    (opens : opening.kind = .punct '\x7b') :
    ∃ t text us, ks = t :: us ∧ t.word? = some text ∧ contractKind? text = some c.kind ∧
      takeHeading c.kind (ks ++ name :: (bs ++ opening :: rest)) =
        .ok (⟨c.name, c.kind, c.bases, []⟩, rest) := by
  obtain ⟨t, text, us, rfl, begins, known, skipped⟩ :=
    @kind_begins (name :: (bs ++ opening :: rest)) _ _ kind
  refine ⟨t, text, us, rfl, begins, known, bind_eq_ok.mpr ⟨_, skipped, ?_⟩⟩
  refine bind_eq_ok.mpr ⟨_, takeWord_of_kind named _, ?_⟩
  refine bind_eq_ok.mpr ⟨_, takeOptionalBases_spelled heritage opens, ?_⟩
  exact bind_eq_ok.mpr ⟨_, if_pos opens, rfl⟩

end

/-- Tokens that are read as some declarations, whatever stands behind them. -/
def ReadAs (ts : List Token) (u : SourceUnit) : Prop :=
  ∀ rest, ∃ read : SourceUnit, read.unlined = u.unlined ∧
    ∀ told, Reaches (.outside told (ts ++ rest)) (.outside (told ++ read) rest)

theorem unlined_append (u v : SourceUnit) : (u ++ v).unlined = u.unlined ++ v.unlined := by
  show SourceUnit.unlined (u.append v) = u.unlined.append v.unlined
  simp [SourceUnit.unlined, SourceUnit.append]

theorem readAs_nil : ReadAs [] .empty := by
  refine fun rest => ⟨.empty, rfl, fun told => ?_⟩
  rw [unit_append_empty]
  exact .refl

theorem readAs_append {ts us : List Token} {u v : SourceUnit} (first : ReadAs ts u) (others : ReadAs us v) :
    ReadAs (ts ++ us) (u ++ v) := by
  intro rest
  obtain ⟨read, same, path⟩ := first (us ++ rest)
  obtain ⟨reads, alike, onward⟩ := others rest
  refine ⟨read ++ reads, by rw [unlined_append, unlined_append, same, alike], fun told => ?_⟩
  rw [List.append_assoc, ← append_assoc]
  exact (path told).trans (onward (told ++ read))

def joined {α : Type} (of : α → SourceUnit) : List α → SourceUnit
  | [] => .empty
  | a :: as => of a ++ joined of as

theorem readAs_all {α : Type} {spelled : α → List Token → Prop} {of : α → SourceUnit} {as : List α}
    {ts : List Token} (all : AllSpelled spelled as ts)
    (each : ∀ a ∈ as, ∀ ts, spelled a ts → ReadAs ts (of a)) : ReadAs ts (joined of as) := by
  induction all with
  | nil => exact readAs_nil
  | cons first others ih =>
    obtain ⟨one, more⟩ := List.forall_mem_cons.mp each
    exact readAs_append (one _ first) (ih more)

theorem readAs_item {t : Token} {us : List Token} {text : String} {u : SourceUnit}
    (begins : t.kind = .word text) (other : contractKind? text = none)
    (taken : ∀ rest, ∃ read : SourceUnit, read.unlined = u.unlined ∧
      takeItem text (t :: (us ++ rest)) = .ok (read, rest)) : ReadAs (t :: us) u := by
  intro rest
  obtain ⟨read, same, run⟩ := taken rest
  exact ⟨read, same, fun told => .single (.item (word_of_kind begins) other run)⟩

theorem readAs_struct {s : StructItem} {ts : List Token} (spelled : s.Spelled ts) (plain : s.Plain)
    (given : ∀ f ∈ s.fields, f.2.LengthsGiven) : ReadAs ts (.ofStruct s) := by
  obtain ⟨t, us, rfl, begins, taken⟩ := takeStruct_spelled spelled plain given
  refine readAs_item begins rfl fun rest => ?_
  obtain ⟨read, same, run⟩ := taken rest
  refine ⟨.ofStruct read, ?_, bind_of_eq_ok run⟩
  simp [SourceUnit.unlined, SourceUnit.ofStruct, SourceUnit.empty, same]

theorem readAs_enum {e : EnumItem} {ts : List Token} (spelled : e.Spelled ts) : ReadAs ts (.ofEnum e) := by
  obtain ⟨t, us, rfl, begins, taken⟩ := takeEnum_spelled spelled
  exact readAs_item begins rfl fun rest => ⟨.ofEnum e, rfl, bind_of_eq_ok (taken rest)⟩

theorem readAs_valueType {v : ValueTypeItem} {ts : List Token} (spelled : v.Spelled ts) :
    ReadAs ts (.ofValueType v) := by
  obtain ⟨t, us, rfl, begins, taken⟩ := takeValueType_spelled spelled
  refine readAs_item begins rfl fun rest => ?_
  obtain ⟨read, same, run⟩ := taken rest
  refine ⟨.ofValueType read, ?_, bind_of_eq_ok run⟩
  simp [SourceUnit.unlined, SourceUnit.ofValueType, SourceUnit.empty, same]

theorem readAs_constant {v : VariableItem} {ts : List Token} (spelled : v.Spelled ts) (plain : v.Plain)
    (given : v.ty.LengthsGiven) (others : ¬ v.ty.IsOfFunctions) : ReadAs ts (.ofVariable v) := by
  obtain ⟨t, text, us, rfl, begins, known⟩ := variable_begins spelled plain
  have first := (or_assoc.mpr known).resolve_right fun function => others function.2
  refine readAs_item begins (takeItem_variable first []).1 fun rest => ?_
  obtain ⟨read, same, taken⟩ := @takeVariable_spelled rest _ _ spelled plain given
  refine ⟨.ofVariable read, ?_, ?_⟩
  · have mutability : read.mutability = v.mutability := by
      simpa [VariableItem.unlined] using congrArg VariableItem.mutability same
    rw [SourceUnit.ofVariable, SourceUnit.ofVariable, mutability]
    split <;> simp [SourceUnit.unlined, SourceUnit.empty, same]
  · rw [(takeItem_variable first _).2]
    exact bind_of_eq_ok taken

theorem readAs_contract {c : ContractItem} {ts : List Token} (spelled : c.Spelled ts) (plain : c.Plain)
    (given : ∀ v ∈ c.declared, v.ty.LengthsGiven) : ReadAs ts (.ofContract c) := by
  obtain @⟨name, opening, closing, ks, bs, vs, kind, named, heritage, opens, listed, closes⟩ := spelled
  intro rest
  obtain ⟨read, same, members⟩ := @reaches_variables (closing :: rest) _ _ listed plain.declared given
  obtain ⟨t, text, us, rfl, begins, known, heading⟩ :=
    @takeHeading_spelled (vs ++ closing :: rest) _ _ _ _ _ kind named heritage opens
  refine ⟨.ofContract { c with declared := read }, ?_, fun told => ?_⟩
  · simp [SourceUnit.unlined, SourceUnit.ofContract, SourceUnit.empty, ContractItem.unlined, same]
  · simp only [List.append_assoc, List.cons_append, List.nil_append] at heading ⊢
    refine .head (.enter begins known heading) ?_
    exact .tail (members told _ .none) (.leave closes)

theorem readAs_ofTokens {ts : List Token} {u : SourceUnit} (readAs : ReadAs ts u) :
    ∃ read, SourceUnit.ofTokens ts = .ok read ∧ read.unlined = u.unlined := by
  obtain ⟨read, same, path⟩ := readAs []
  refine ⟨read, ?_, same⟩
  have told := reaches_finish (path .empty)
  rw [List.append_nil, ← ofTokens_finish] at told
  refine told.trans (congrArg Except.ok ?_)
  exact unit_append_empty _

theorem joined_eq {α : Type} {of : α → SourceUnit} {as : List α} (put : List α → SourceUnit)
    (nil : put [] = .empty) (cons : ∀ a ∈ as, ∀ bs, of a ++ put bs = put (a :: bs)) :
    joined of as = put as := by
  induction as with
  | nil => exact nil.symm
  | cons a as ih =>
    obtain ⟨first, others⟩ := List.forall_mem_cons.mp cons
    rw [joined, ih others, first]

theorem joined_declarations {u : SourceUnit} (constants : ∀ v ∈ u.constants, v.mutability = .constant) :
    joined .ofStruct u.structs ++ (joined .ofEnum u.enums ++ (joined .ofValueType u.valueTypes ++
      (joined .ofVariable u.constants ++ joined .ofContract u.contracts))) = u := by
  have structs : joined .ofStruct u.structs = { SourceUnit.empty with structs := u.structs } :=
    joined_eq (fun ss => { SourceUnit.empty with structs := ss }) rfl fun _ _ _ => rfl
  have enums : joined .ofEnum u.enums = { SourceUnit.empty with enums := u.enums } :=
    joined_eq (fun es => { SourceUnit.empty with enums := es }) rfl fun _ _ _ => rfl
  have valueTypes : joined .ofValueType u.valueTypes = { SourceUnit.empty with valueTypes := u.valueTypes } :=
    joined_eq (fun vs => { SourceUnit.empty with valueTypes := vs }) rfl fun _ _ _ => rfl
  have contracts : joined .ofContract u.contracts = { SourceUnit.empty with contracts := u.contracts } :=
    joined_eq (fun cs => { SourceUnit.empty with contracts := cs }) rfl fun _ _ _ => rfl
  have constant : joined .ofVariable u.constants = { SourceUnit.empty with constants := u.constants } := by
    refine joined_eq (fun vs => { SourceUnit.empty with constants := vs }) rfl fun v known vs => ?_
    rw [SourceUnit.ofVariable, if_pos (constants v known)]
    rfl
  rw [structs, enums, valueTypes, constant, contracts]
  show SourceUnit.append _ (SourceUnit.append _ (SourceUnit.append _ (SourceUnit.append _ _))) = u
  simp [SourceUnit.append, SourceUnit.empty]

theorem readAs_source {u : SourceUnit} {ts : List Token} (spelled : u.Spelled ts) (plain : u.Plain)
    (given : u.LengthsGiven) (constants : ∀ v ∈ u.constants, ¬ v.ty.IsOfFunctions) : ReadAs ts u := by
  obtain ⟨structs, enums, valueTypes, constant, contracts⟩ := spelled
  rw [← joined_declarations fun v known => (plain.constants v known).2.1]
  refine readAs_append (readAs_all structs fun s known ts spelled => ?_) ?_
  · exact readAs_struct spelled (plain.structs s known) (given.structs s known)
  refine readAs_append (readAs_all enums fun e _ ts spelled => readAs_enum spelled) ?_
  refine readAs_append (readAs_all valueTypes fun v _ ts spelled => readAs_valueType spelled) ?_
  refine readAs_append (readAs_all constant fun v known ts spelled => ?_) ?_
  · exact readAs_constant spelled (plain.constants v known).1 (given.constants v known) (constants v known)
  · refine readAs_all contracts fun c known ts spelled => ?_
    exact readAs_contract spelled (plain.contracts c known) (given.contracts c known)

/-- Each type and each source is read as it is spelled, up to the lines, and what is printed is a
spelling. -/
theorem spelled_read_back :
    (∀ ty : TypeExpr, ty.Plain → ty.LengthsGiven → ty.Spelled ty.print ∧
      ∀ ts rest, ty.Spelled ts → ty.Apart rest → atPunct '[' rest = false →
        ∃ read, typeExpr (ts ++ rest) = .ok (read, rest) ∧ read.unlined = ty.unlined) ∧
    ∀ u : SourceUnit, u.Plain → u.LengthsGiven → (∀ v ∈ u.constants, ¬ v.ty.IsOfFunctions) →
      u.Spelled u.print ∧ ∀ ts, u.Spelled ts →
        ∃ read, SourceUnit.ofTokens ts = .ok read ∧ read.unlined = u.unlined := by
  constructor
  · refine fun ty plain given => ⟨type_spelled ty, fun ts rest spelled apart bracket => ?_⟩
    obtain ⟨read, same, taken⟩ := typeExpr_spelled spelled plain given apart bracket
    exact ⟨read, taken, same⟩
  · refine fun u plain given constants => ⟨source_spelled plain, fun ts spelled => ?_⟩
    exact readAs_ofTokens (readAs_source spelled plain given constants)

def handlers : TypeExpr :=
  .array (.mapping (.named "address" 1) (.function true)) (some [⟨.number "2", 1⟩]) 1

/-- `mapping(address payable owner => function() view external returns () handler)[2]` -/
def namedHandlers : List Token :=
  [.ofWord "mapping", .ofPunct '(', .ofWord "address", .ofWord "payable", .ofWord "owner", ⟨.arrow, 1⟩,
    .ofWord "function", .ofPunct '(', .ofPunct ')', .ofWord "view", .ofWord "external", .ofWord "returns",
    .ofPunct '(', .ofPunct ')', .ofWord "handler", .ofPunct ')', .ofPunct '[', ⟨.number "2", 1⟩, .ofPunct ']']

/-- `enum Mode { _, _ }`, `type Wei is uint256;`, `uint constant MAX = 9;` and
`contract Vault is Base { … public table; function() hook; }` -/
def vault : SourceUnit where
  contracts := [⟨"Vault", .plain, ["Base"],
    [⟨"table", handlers, some .public, .mutable, none⟩, ⟨"hook", .function false, none, .mutable, none⟩]⟩]
  structs := []
  enums := [⟨"Mode", 2⟩]
  valueTypes := [⟨"Wei", "uint256", 1⟩]
  constants := [⟨"MAX", .named "uint" 1, none, .constant, some [⟨.number "9", 1⟩]⟩]

theorem handlers_plain : handlers.Plain := by
  have address : IsName "address" := by decide
  refine ⟨⟨address, trivial⟩, ?_⟩
  rintro ts ⟨⟩
  exact ⟨by decide, by decide⟩

theorem handlers_given : handlers.LengthsGiven :=
  ⟨⟨trivial, trivial⟩, by simp⟩

theorem namedHandlers_spelled : handlers.Spelled namedHandlers := by
  have key : (TypeExpr.named "address" 1).Spelled [.ofWord "address", .ofWord "payable"] :=
    .named rfl (.word rfl)
  have parens : Parens [.ofPunct '(', .ofPunct ')'] :=
    @Parens.mk (.ofPunct '(') (.ofPunct ')') [] rfl rfl rfl
  have words : FunctionWords false true
      [.ofWord "view", .ofWord "external", .ofWord "returns", .ofPunct '(', .ofPunct ')'] :=
    .other rfl (by decide) (.external rfl (.returns rfl parens (.nil true)))
  have value := @TypeExpr.Spelled.function (.ofWord "function") _ _ _ rfl parens words
  have owner : Parameter [.ofWord "owner"] := .named rfl (by decide)
  have handler : Parameter [.ofWord "handler"] := .named rfl (by decide)
  have mapped := @TypeExpr.Spelled.mapping (.ofWord "mapping") (.ofPunct '(') ⟨.arrow, 1⟩ (.ofPunct ')')
    _ _ _ _ _ _ rfl rfl key owner rfl value handler rfl
  exact .fixed mapped rfl rfl rfl

theorem vault_plain : vault.Plain where
  structs := by simp [vault]
  enums := List.forall_mem_singleton.mpr (by decide)
  valueTypes := List.forall_mem_singleton.mpr ⟨by decide, by decide⟩
  constants := by
    have max : VariableItem.Plain ⟨"MAX", .named "uint" 1, none, .constant, some [⟨.number "9", 1⟩]⟩ := by
      refine ⟨by decide, show IsName "uint" by decide, ?_, by simp⟩
      rintro ts ⟨⟩
      decide
    exact List.forall_mem_singleton.mpr ⟨max, rfl, by simp⟩
  contracts := by
    have table : VariableItem.Plain ⟨"table", handlers, some .public, .mutable, none⟩ :=
      ⟨by decide, handlers_plain, by simp, by simp [handlers]⟩
    have hook : VariableItem.Plain ⟨"hook", .function false, none, .mutable, none⟩ :=
      ⟨by decide, trivial, by simp, by simp⟩
    refine List.forall_mem_singleton.mpr ⟨by decide, by decide, ?_⟩
    exact List.forall_mem_cons.mpr ⟨table, List.forall_mem_singleton.mpr hook⟩

theorem vault_given : vault.LengthsGiven where
  structs := by simp [vault]
  constants := List.forall_mem_singleton.mpr trivial
  contracts := List.forall_mem_singleton.mpr
    (List.forall_mem_cons.mpr ⟨handlers_given, List.forall_mem_singleton.mpr trivial⟩)

theorem vault_read_back :
    (handlers.Plain ∧ handlers.LengthsGiven ∧
      ∃ read, typeExpr (namedHandlers ++ []) = .ok (read, []) ∧ read.unlined = handlers.unlined) ∧
    (vault.Plain ∧ vault.LengthsGiven ∧ (∀ v ∈ vault.constants, ¬ v.ty.IsOfFunctions) ∧
      ∃ read, SourceUnit.ofTokens vault.print = .ok read ∧ read.unlined = vault.unlined) := by
  have constants : ∀ v ∈ vault.constants, ¬ v.ty.IsOfFunctions := List.forall_mem_singleton.mpr id
  refine ⟨⟨handlers_plain, handlers_given, ?_⟩, vault_plain, vault_given, constants, ?_⟩
  · exact (spelled_read_back.1 handlers handlers_plain handlers_given).2 namedHandlers []
      namedHandlers_spelled trivial rfl
  · obtain ⟨printed, read⟩ := spelled_read_back.2 vault vault_plain vault_given constants
    exact read vault.print printed

def functionConstants : SourceUnit :=
  { SourceUnit.empty with
    constants := [⟨"F", .array (.function true) (some [⟨.number "2", 1⟩]) 1, none, .constant,
      some [.ofWord "x"]⟩] }

/-- `contract C { uint[] a; }`, with a length that has no tokens. -/
def lengthWithoutTokens : SourceUnit :=
  { SourceUnit.empty with
    contracts := [⟨"C", .plain, [],
      [⟨"a", .array (.named "uint" 1) (some []) 1, none, .mutable, none⟩]⟩] }

theorem functionConstants_plain : functionConstants.Plain where
  structs := by simp [functionConstants, SourceUnit.empty]
  enums := by simp [functionConstants, SourceUnit.empty]
  valueTypes := by simp [functionConstants, SourceUnit.empty]
  contracts := by simp [functionConstants, SourceUnit.empty]
  constants := by
    refine List.forall_mem_singleton.mpr ⟨⟨by decide, ⟨trivial, ?_⟩, ?_, by simp⟩, rfl, by simp⟩
    · rintro ts ⟨⟩
      exact ⟨by decide, by decide⟩
    · rintro ts ⟨⟩
      decide

theorem lengthWithoutTokens_plain : lengthWithoutTokens.Plain where
  structs := by simp [lengthWithoutTokens, SourceUnit.empty]
  enums := by simp [lengthWithoutTokens, SourceUnit.empty]
  valueTypes := by simp [lengthWithoutTokens, SourceUnit.empty]
  constants := by simp [lengthWithoutTokens, SourceUnit.empty]
  contracts := by
    have uint : IsName "uint" := by decide
    refine List.forall_mem_singleton.mpr ⟨by decide, by simp, ?_⟩
    refine List.forall_mem_singleton.mpr ⟨by decide, ⟨uint, ?_⟩, by simp, by simp⟩
    rintro ts ⟨⟩
    exact ⟨rfl, rfl⟩

/-- Constants of functions are skipped, and a length without tokens is not told from none. -/
theorem not_all_read_back :
    (¬ ∀ u : SourceUnit, u.Plain → u.LengthsGiven → ∀ ts, u.Spelled ts →
      ∃ read, SourceUnit.ofTokens ts = .ok read ∧ read.unlined = u.unlined) ∧
    ¬ ∀ u : SourceUnit, u.Plain → (∀ v ∈ u.constants, ¬ v.ty.IsOfFunctions) → ∀ ts, u.Spelled ts →
      ∃ read, SourceUnit.ofTokens ts = .ok read ∧ read.unlined = u.unlined := by
  constructor
  · intro all
    have given : functionConstants.LengthsGiven :=
      ⟨by simp [functionConstants, SourceUnit.empty],
        List.forall_mem_singleton.mpr ⟨trivial, by simp⟩, by simp [functionConstants, SourceUnit.empty]⟩
    obtain ⟨read, taken, same⟩ :=
      all _ functionConstants_plain given _ (source_spelled functionConstants_plain)
    have skipped : SourceUnit.ofTokens functionConstants.print = .ok .empty := rfl
    obtain rfl := Except.ok.inj (taken.symm.trans skipped)
    exact absurd (congrArg (·.constants.length) same) (by decide)
  · intro all
    have constants : ∀ v ∈ lengthWithoutTokens.constants, ¬ v.ty.IsOfFunctions := by
      simp [lengthWithoutTokens, SourceUnit.empty]
    obtain ⟨read, taken, same⟩ :=
      all _ lengthWithoutTokens_plain constants _ (source_spelled lengthWithoutTokens_plain)
    have dynamic : SourceUnit.ofTokens lengthWithoutTokens.print = .ok
        (.ofContract ⟨"C", .plain, [], [⟨"a", .array (.named "uint" 1) none 1, none, .mutable, none⟩]⟩) := rfl
    obtain rfl := Except.ok.inj (taken.symm.trans dynamic)
    simp [SourceUnit.unlined, SourceUnit.ofContract, lengthWithoutTokens, SourceUnit.empty,
      ContractItem.unlined, VariableItem.unlined, TypeExpr.unlined] at same

end ContractRegistry.Source
