import ContractRegistry.Proofs.Source.Bracketed

/-!
How declarations are spelled.

The same declarations can be spelled in several ways: the parameters of a mapping may have names,
attributes stand in any order, an address may be called payable, a base may have arguments. Each way is
allowed here. One of them is chosen to print declarations.
-/
namespace ContractRegistry.Source

def keywords : List String :=
  ["pragma", "import", "using", "event", "error", "function", "abstract", "contract", "interface",
    "library", "struct", "enum", "type", "is", "modifier", "constructor", "fallback", "receive",
    "mapping", "payable", "external", "internal", "view", "pure", "returns", "public", "private",
    "constant", "immutable", "transient", "override", "virtual"]

def IsName (text : String) : Prop :=
  text ∉ keywords

instance (text : String) : Decidable (IsName text) :=
  inferInstanceAs (Decidable (text ∉ keywords))

def Token.unlined (t : Token) : Token :=
  { t with line := 0 }

def TypeExpr.unlined : TypeExpr → TypeExpr
  | .named name _ => .named name 0
  | .mapping key value => .mapping key.unlined value.unlined
  | .array element length _ => .array element.unlined (length.map (List.map Token.unlined)) 0
  | .function external => .function external

def StructItem.unlined (s : StructItem) : StructItem :=
  { s with fields := s.fields.map fun f => (f.1, f.2.unlined) }

def ValueTypeItem.unlined (v : ValueTypeItem) : ValueTypeItem :=
  { v with line := 0 }

def VariableItem.unlined (v : VariableItem) : VariableItem :=
  { v with ty := v.ty.unlined, init := v.init.map (List.map Token.unlined) }

def ContractItem.unlined (c : ContractItem) : ContractItem :=
  { c with declared := c.declared.map VariableItem.unlined }

def SourceUnit.unlined (u : SourceUnit) : SourceUnit :=
  ⟨u.contracts.map ContractItem.unlined, u.structs.map StructItem.unlined, u.enums,
    u.valueTypes.map ValueTypeItem.unlined, u.constants.map VariableItem.unlined⟩

theorem unlined_eq_iff {ts us : List Token} :
    ts.map Token.unlined = us.map Token.unlined ↔ kinds ts = kinds us := by
  induction ts generalizing us with
  | nil => cases us <;> simp
  | cons t ts ih =>
    cases us with
    | nil => simp
    | cons u us => simp [Token.unlined, ih]

def TypeExpr.IsOfFunctions : TypeExpr → Prop
  | .function _ => True
  | .array element _ _ => element.IsOfFunctions
  | .named _ _ => False
  | .mapping _ _ => False

/-- The tokens of a length: brackets and parentheses are balanced, and what would end the head of a
function stands in parentheses only. -/
structure PlainLength (ts : List Token) : Prop where
  brackets : balancedInside '[' ']' (kinds ts) = true
  parentheses : balancedHead 0 headEnds (kinds ts) = true

def TypeExpr.Plain : TypeExpr → Prop
  | .named name _ => IsName name
  | .mapping key value => key.Plain ∧ value.Plain
  | .array element length _ => element.Plain ∧ ∀ ts, length = some ts → PlainLength ts
  | .function _ => True

def TypeExpr.LengthsGiven : TypeExpr → Prop
  | .named _ _ => True
  | .mapping key value => key.LengthsGiven ∧ value.LengthsGiven
  | .array element length _ => element.LengthsGiven ∧ length ≠ some []
  | .function _ => True

structure StructItem.Plain (s : StructItem) : Prop where
  name : IsName s.name
  fields : ∀ f ∈ s.fields, IsName f.1 ∧ f.2.Plain

structure ValueTypeItem.Plain (v : ValueTypeItem) : Prop where
  name : IsName v.name
  underlying : IsName v.underlying

structure VariableItem.Plain (v : VariableItem) : Prop where
  name : IsName v.name
  type : v.ty.Plain
  init : ∀ ts, v.init = some ts → balancedStatement 0 (kinds ts) = true
  visibility : ∀ external, v.ty = .function external → v.visibility ≠ some .internal

structure ContractItem.Plain (c : ContractItem) : Prop where
  name : IsName c.name
  bases : ∀ base ∈ c.bases, IsName base
  declared : ∀ v ∈ c.declared, v.Plain

structure SourceUnit.Plain (u : SourceUnit) : Prop where
  structs : ∀ s ∈ u.structs, s.Plain
  enums : ∀ e ∈ u.enums, IsName e.name
  valueTypes : ∀ v ∈ u.valueTypes, v.Plain
  constants : ∀ v ∈ u.constants, v.Plain ∧ v.mutability = .constant ∧ ∀ external, v.ty ≠ .function external
  contracts : ∀ c ∈ u.contracts, c.Plain

structure SourceUnit.LengthsGiven (u : SourceUnit) : Prop where
  structs : ∀ s ∈ u.structs, ∀ f ∈ s.fields, f.2.LengthsGiven
  constants : ∀ v ∈ u.constants, v.ty.LengthsGiven
  contracts : ∀ c ∈ u.contracts, ∀ v ∈ c.declared, v.ty.LengthsGiven

inductive Parens : List Token → Prop where
  | mk {first last : Token} {inside : List Token} (opens : first.kind = .punct '(')
      (balanced : balancedInside '(' ')' (kinds inside) = true) (closes : last.kind = .punct ')') :
      Parens (first :: (inside ++ [last]))

inductive Parameter : List Token → Prop where
  | none : Parameter []
  | named {t : Token} {text : String} (is : t.kind = .word text) (name : IsName text) : Parameter [t]

/-- Words behind the parameters of a function type, which may tell that it is external. -/
inductive FunctionWords : Bool → Bool → List Token → Prop where
  | nil (external : Bool) : FunctionWords external external []
  | external {before after : Bool} {t : Token} {ts : List Token} (is : t.kind = .word "external")
      (others : FunctionWords true after ts) : FunctionWords before after (t :: ts)
  | other {before after : Bool} {t : Token} {text : String} {ts : List Token} (is : t.kind = .word text)
      (known : text ∈ ["internal", "view", "pure", "payable"]) (others : FunctionWords before after ts) :
      FunctionWords before after (t :: ts)
  | returns {before after : Bool} {t : Token} {ps ts : List Token} (is : t.kind = .word "returns")
      (results : Parens ps) (others : FunctionWords before after ts) :
      FunctionWords before after (t :: (ps ++ ts))

inductive Payable : String → List Token → Prop where
  | none (name : String) : Payable name []
  | word {t : Token} (is : t.kind = .word "payable") : Payable "address" [t]

inductive TypeExpr.Spelled : TypeExpr → List Token → Prop where
  | named {t : Token} {name : String} {line : Nat} {ps : List Token} (is : t.kind = .word name)
      (payable : Payable name ps) : Spelled (.named name line) (t :: ps)
  | mapping {first opening arrow closing : Token} {key value : TypeExpr} {ks ps vs qs : List Token}
      (begins : first.kind = .word "mapping") (opens : opening.kind = .punct '(')
      (keyed : key.Spelled ks) (keyName : Parameter ps) (is : arrow.kind = .arrow)
      (valued : value.Spelled vs) (valueName : Parameter qs) (closes : closing.kind = .punct ')') :
      Spelled (.mapping key value)
        (first :: opening :: (ks ++ (ps ++ arrow :: (vs ++ (qs ++ [closing])))))
  | function {first : Token} {external : Bool} {ps ws : List Token}
      (begins : first.kind = .word "function") (parameters : Parens ps)
      (words : FunctionWords false external ws) : Spelled (.function external) (first :: (ps ++ ws))
  | dynamic {opening closing : Token} {element : TypeExpr} {es : List Token} {line : Nat}
      (typed : element.Spelled es) (opens : opening.kind = .punct '[') (closes : closing.kind = .punct ']') :
      Spelled (.array element none line) (es ++ [opening, closing])
  | fixed {opening closing : Token} {element : TypeExpr} {es us ls : List Token} {line : Nat}
      (typed : element.Spelled es) (opens : opening.kind = .punct '[') (same : kinds ls = kinds us)
      (closes : closing.kind = .punct ']') :
      Spelled (.array element (some us) line) (es ++ opening :: (ls ++ [closing]))

inductive AttributeWords : Attributes → Attributes → List Token → Prop where
  | nil (a : Attributes) : AttributeWords a a []
  | word {a b c : Attributes} {t : Token} {text : String} {ts : List Token} (is : t.kind = .word text)
      (added : a.add? text = some b) (others : AttributeWords b c ts) : AttributeWords a c (t :: ts)
  | overrides {a c : Attributes} {t : Token} {ps ts : List Token} (is : t.kind = .word "override")
      (bases : Parens ps) (others : AttributeWords a c ts) : AttributeWords a c (t :: (ps ++ ts))

inductive InitSpelled : Option (List Token) → List Token → Prop where
  | none {t : Token} (ends : t.kind = .punct ';') : InitSpelled none [t]
  | some {first last : Token} {us ts : List Token} (equals : first.kind = .punct '=')
      (same : kinds ts = kinds us) (ends : last.kind = .punct ';') :
      InitSpelled (some us) (first :: (ts ++ [last]))

/-- The tokens of a variable. Its attributes do not begin with a word of its type. -/
inductive VariableItem.Spelled : VariableItem → List Token → Prop where
  | mk {v : VariableItem} {name : Token} {ty words ending : List Token} (typed : v.ty.Spelled ty)
      (attributes : AttributeWords .none ⟨v.visibility, v.mutability⟩ words)
      (apart : ∀ external, v.ty = .function external → peekWord? words ≠ some "internal")
      (named : name.kind = .word v.name) (ends : InitSpelled v.init ending) :
      Spelled v (ty ++ (words ++ name :: ending))

inductive FieldsSpelled : List (String × TypeExpr) → List Token → Prop where
  | nil : FieldsSpelled [] []
  | cons {text : String} {ty : TypeExpr} {fields : List (String × TypeExpr)} {name semicolon : Token}
      {ts rest : List Token} (typed : ty.Spelled ts) (named : name.kind = .word text)
      (ends : semicolon.kind = .punct ';') (others : FieldsSpelled fields rest) :
      FieldsSpelled ((text, ty) :: fields) (ts ++ name :: semicolon :: rest)

inductive StructItem.Spelled : StructItem → List Token → Prop where
  | mk {s : StructItem} {first name opening closing : Token} {ts : List Token}
      (begins : first.kind = .word "struct") (named : name.kind = .word s.name)
      (opens : opening.kind = .punct '\x7b') (listed : FieldsSpelled s.fields ts)
      (closes : closing.kind = .punct '\x7d') : Spelled s (first :: name :: opening :: (ts ++ [closing]))

inductive MembersSpelled : Nat → List Token → Prop where
  | nil : MembersSpelled 0 []
  | word {count : Nat} {t : Token} {text : String} {ts : List Token} (is : t.kind = .word text)
      (others : MembersSpelled count ts) : MembersSpelled (count + 1) (t :: ts)
  | comma {count : Nat} {t : Token} {ts : List Token} (is : t.kind = .punct ',')
      (others : MembersSpelled count ts) : MembersSpelled count (t :: ts)

inductive EnumItem.Spelled : EnumItem → List Token → Prop where
  | mk {e : EnumItem} {first name opening closing : Token} {ts : List Token}
      (begins : first.kind = .word "enum") (named : name.kind = .word e.name)
      (opens : opening.kind = .punct '\x7b') (listed : MembersSpelled e.members ts)
      (closes : closing.kind = .punct '\x7d') : Spelled e (first :: name :: opening :: (ts ++ [closing]))

inductive ValueTypeItem.Spelled : ValueTypeItem → List Token → Prop where
  | mk {v : ValueTypeItem} {first name is underlying semicolon : Token} {ps : List Token}
      (begins : first.kind = .word "type") (named : name.kind = .word v.name)
      (word : is.kind = .word "is") (type : underlying.kind = .word v.underlying)
      (payable : Payable v.underlying ps) (ends : semicolon.kind = .punct ';') :
      Spelled v (first :: name :: is :: underlying :: (ps ++ [semicolon]))

inductive AllSpelled {α : Type} (spelled : α → List Token → Prop) : List α → List Token → Prop where
  | nil : AllSpelled spelled [] []
  | cons {a : α} {as : List α} {ts us : List Token} (first : spelled a ts)
      (others : AllSpelled spelled as us) : AllSpelled spelled (a :: as) (ts ++ us)

inductive KindSpelled : ContractKind → List Token → Prop where
  | plain {t : Token} (is : t.kind = .word "contract") : KindSpelled .plain [t]
  | abstract {t u : Token} (is : t.kind = .word "abstract") (word : u.kind = .word "contract") :
      KindSpelled .abstract [t, u]
  | interface {t : Token} (is : t.kind = .word "interface") : KindSpelled .interface [t]
  | library {t : Token} (is : t.kind = .word "library") : KindSpelled .library [t]

inductive BaseSpelled : String → List Token → Prop where
  | bare {base : String} {t : Token} (is : t.kind = .word base) : BaseSpelled base [t]
  | called {base : String} {t : Token} {ps : List Token} (is : t.kind = .word base) (arguments : Parens ps) :
      BaseSpelled base (t :: ps)

inductive BasesSpelled : List String → List Token → Prop where
  | last {base : String} {ts : List Token} (spelled : BaseSpelled base ts) : BasesSpelled [base] ts
  | more {base : String} {bases : List String} {comma : Token} {ts us : List Token}
      (spelled : BaseSpelled base ts) (is : comma.kind = .punct ',') (others : BasesSpelled bases us) :
      BasesSpelled (base :: bases) (ts ++ comma :: us)

inductive HeritageSpelled : List String → List Token → Prop where
  | none : HeritageSpelled [] []
  | some {bases : List String} {t : Token} {ts : List Token} (is : t.kind = .word "is")
      (listed : BasesSpelled bases ts) : HeritageSpelled bases (t :: ts)

inductive ContractItem.Spelled : ContractItem → List Token → Prop where
  | mk {c : ContractItem} {name opening closing : Token} {ks bs vs : List Token}
      (kind : KindSpelled c.kind ks) (named : name.kind = .word c.name)
      (heritage : HeritageSpelled c.bases bs) (opens : opening.kind = .punct '\x7b')
      (listed : AllSpelled VariableItem.Spelled c.declared vs) (closes : closing.kind = .punct '\x7d') :
      Spelled c (ks ++ name :: (bs ++ opening :: (vs ++ [closing])))

inductive SourceUnit.Spelled : SourceUnit → List Token → Prop where
  | mk {u : SourceUnit} {ss es vs ks cs : List Token} (structs : AllSpelled StructItem.Spelled u.structs ss)
      (enums : AllSpelled EnumItem.Spelled u.enums es)
      (valueTypes : AllSpelled ValueTypeItem.Spelled u.valueTypes vs)
      (constants : AllSpelled VariableItem.Spelled u.constants ks)
      (contracts : AllSpelled ContractItem.Spelled u.contracts cs) :
      Spelled u (ss ++ (es ++ (vs ++ (ks ++ cs))))

def Token.ofWord (text : String) : Token :=
  ⟨.word text, 1⟩

def Token.ofPunct (c : Char) : Token :=
  ⟨.punct c, 1⟩

def TypeExpr.print : TypeExpr → List Token
  | .named name _ => [.ofWord name]
  | .mapping key value =>
    .ofWord "mapping" :: .ofPunct '(' :: (key.print ++ ⟨.arrow, 1⟩ :: (value.print ++ [.ofPunct ')']))
  | .array element none _ => element.print ++ [.ofPunct '[', .ofPunct ']']
  | .array element (some ts) _ => element.print ++ .ofPunct '[' :: (ts ++ [.ofPunct ']'])
  | .function external =>
    .ofWord "function" :: .ofPunct '(' :: .ofPunct ')' :: if external then [.ofWord "external"] else []

def visibilityWord : Visibility → String
  | .public => "public"
  | .internal => "internal"
  | .private => "private"

def mutabilityWord? : Mutability → Option String
  | .mutable => none
  | .constant => some "constant"
  | .immutable => some "immutable"
  | .transient => some "transient"

def Attributes.print (a : Attributes) : List Token :=
  ((a.visibility.map visibilityWord).toList ++ (mutabilityWord? a.mutability).toList).map Token.ofWord

def printInit : Option (List Token) → List Token
  | none => [.ofPunct ';']
  | some ts => .ofPunct '=' :: (ts ++ [.ofPunct ';'])

def VariableItem.print (v : VariableItem) : List Token :=
  v.ty.print ++ ((Attributes.mk v.visibility v.mutability).print ++ .ofWord v.name :: printInit v.init)

def printField (f : String × TypeExpr) : List Token :=
  f.2.print ++ [.ofWord f.1, .ofPunct ';']

def StructItem.print (s : StructItem) : List Token :=
  .ofWord "struct" :: .ofWord s.name :: .ofPunct '\x7b' :: (s.fields.flatMap printField ++ [.ofPunct '\x7d'])

def printMembers (members : Nat) : List Token :=
  List.intersperse (.ofPunct ',') (List.replicate members (.ofWord "_"))

def EnumItem.print (e : EnumItem) : List Token :=
  .ofWord "enum" :: .ofWord e.name :: .ofPunct '\x7b' :: (printMembers e.members ++ [.ofPunct '\x7d'])

def ValueTypeItem.print (v : ValueTypeItem) : List Token :=
  [.ofWord "type", .ofWord v.name, .ofWord "is", .ofWord v.underlying, .ofPunct ';']

def ContractKind.print : ContractKind → List Token
  | .plain => [.ofWord "contract"]
  | .abstract => [.ofWord "abstract", .ofWord "contract"]
  | .interface => [.ofWord "interface"]
  | .library => [.ofWord "library"]

def printHeritage : List String → List Token
  | [] => []
  | base :: bases => .ofWord "is" :: List.intersperse (.ofPunct ',') ((base :: bases).map Token.ofWord)

def ContractItem.print (c : ContractItem) : List Token :=
  c.kind.print ++ .ofWord c.name ::
    (printHeritage c.bases ++ .ofPunct '\x7b' :: (c.declared.flatMap VariableItem.print ++ [.ofPunct '\x7d']))

def SourceUnit.print (u : SourceUnit) : List Token :=
  u.structs.flatMap StructItem.print ++ (u.enums.flatMap EnumItem.print ++
    (u.valueTypes.flatMap ValueTypeItem.print ++ (u.constants.flatMap VariableItem.print ++
      u.contracts.flatMap ContractItem.print)))

theorem type_spelled (ty : TypeExpr) : ty.Spelled ty.print := by
  induction ty with
  | named name line => exact .named rfl (.none name)
  | mapping key value ihk ihv => exact .mapping rfl rfl ihk .none rfl ihv .none rfl
  | array element length line ih =>
    cases length with
    | none => exact .dynamic ih rfl rfl
    | some ts => exact .fixed ih rfl rfl rfl
  | function external =>
    have parameters : Parens [.ofPunct '(', .ofPunct ')'] :=
      @Parens.mk (.ofPunct '(') (.ofPunct ')') [] rfl rfl rfl
    cases external with
    | false => exact .function rfl parameters (.nil false)
    | true => exact .function rfl parameters (.external rfl (.nil true))

theorem attributes_spelled (visibility : Option Visibility) (mutability : Mutability) :
    AttributeWords .none ⟨visibility, mutability⟩ (Attributes.mk visibility mutability).print := by
  have changed : AttributeWords ⟨visibility, .mutable⟩ ⟨visibility, mutability⟩
      ((mutabilityWord? mutability).toList.map Token.ofWord) := by
    cases mutability with
    | mutable => exact .nil _
    | constant | immutable | transient => exact .word rfl rfl (.nil _)
  rw [Attributes.print, List.map_append]
  cases visibility with
  | none => exact changed
  | some v => cases v <;> exact .word rfl rfl changed

theorem init_spelled (init : Option (List Token)) : InitSpelled init (printInit init) := by
  cases init with
  | none => exact .none rfl
  | some ts => exact .some rfl rfl rfl

theorem attributes_print_apart {visibility : Option Visibility} (other : visibility ≠ some .internal)
    (mutability : Mutability) : peekWord? (Attributes.mk visibility mutability).print ≠ some "internal" := by
  revert other
  rcases visibility with _ | _ | _ | _ <;> cases mutability <;> decide

theorem variable_spelled {v : VariableItem} (plain : v.Plain) : v.Spelled v.print :=
  .mk (type_spelled v.ty) (attributes_spelled v.visibility v.mutability)
    (fun external is => attributes_print_apart (plain.visibility external is) v.mutability) rfl
    (init_spelled v.init)

theorem fields_spelled (fields : List (String × TypeExpr)) :
    FieldsSpelled fields (fields.flatMap printField) := by
  induction fields with
  | nil => exact .nil
  | cons f fields ih =>
    rw [List.flatMap_cons, printField, List.append_assoc]
    exact .cons (type_spelled f.2) rfl rfl ih

theorem members_spelled (members : Nat) : MembersSpelled members (printMembers members) := by
  induction members with
  | zero => exact .nil
  | succ members ih =>
    cases members with
    | zero => exact .word rfl .nil
    | succ members => exact .word rfl (.comma rfl ih)

theorem bases_spelled (base : String) (bases : List String) :
    BasesSpelled (base :: bases) (List.intersperse (.ofPunct ',') ((base :: bases).map Token.ofWord)) := by
  induction bases generalizing base with
  | nil => exact .last (.bare rfl)
  | cons next bases ih => exact .more (.bare rfl) rfl (ih next)

theorem heritage_spelled (bases : List String) : HeritageSpelled bases (printHeritage bases) := by
  cases bases with
  | nil => exact .none
  | cons base bases => exact .some rfl (bases_spelled base bases)

theorem kind_spelled (kind : ContractKind) : KindSpelled kind kind.print := by
  cases kind with
  | plain => exact .plain rfl
  | abstract => exact .abstract rfl rfl
  | interface => exact .interface rfl
  | library => exact .library rfl

theorem all_spelled {α : Type} {spelled : α → List Token → Prop} {print : α → List Token} {as : List α}
    (each : ∀ a ∈ as, spelled a (print a)) : AllSpelled spelled as (as.flatMap print) := by
  induction as with
  | nil => exact .nil
  | cons a as ih =>
    obtain ⟨first, others⟩ := List.forall_mem_cons.mp each
    exact .cons first (ih others)

theorem contract_spelled {c : ContractItem} (plain : c.Plain) : c.Spelled c.print :=
  .mk (kind_spelled c.kind) rfl (heritage_spelled c.bases) rfl
    (all_spelled fun v known => variable_spelled (plain.declared v known)) rfl

theorem source_spelled {u : SourceUnit} (plain : u.Plain) : u.Spelled u.print :=
  .mk (all_spelled fun s _ => .mk rfl rfl rfl (fields_spelled s.fields) rfl)
    (all_spelled fun e _ => .mk rfl rfl rfl (members_spelled e.members) rfl)
    (all_spelled fun v _ => .mk rfl rfl rfl rfl (.none v.underlying) rfl)
    (all_spelled fun v known => variable_spelled (plain.constants v known).1)
    (all_spelled fun c known => contract_spelled (plain.contracts c known))

end ContractRegistry.Source
