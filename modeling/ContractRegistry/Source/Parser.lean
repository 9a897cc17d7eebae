import ContractRegistry.Source.Unit

/-!
From tokens to declarations.

Functions, events, errors and modifiers have no part in storage and are skipped by their brackets.
A reader takes tokens from the front of a list and gives back the rest. Where readers call each other,
the first argument bounds the depth or the number of rounds; the number of tokens is always enough,
since each call takes a token first.
-/
namespace ContractRegistry.Source

abbrev Parsed := Except SourceError

abbrev Taken (α : Type) := α × List Token

namespace Token

def word? (t : Token) : Option String :=
  match t.kind with
  | .word text => some text
  | _ => none

def unexpected (t : Token) (expected : String) : SourceError :=
  .unexpectedToken t.line expected t.kind.describe

end Token

def atPunct (c : Char) : List Token → Bool
  | [] => false
  | t :: _ => t.kind = .punct c

def peekWord? : List Token → Option String
  | [] => none
  | t :: _ => t.word?

def skipWord (ts : List Token) : List Token :=
  if (peekWord? ts).isSome then ts.drop 1 else ts

def skipThisWord (word : String) (ts : List Token) : List Token :=
  if peekWord? ts = some word then ts.drop 1 else ts

def takeKind (kind : TokenKind) (expected : String) : List Token → Parsed (List Token)
  | [] => .error (.unexpectedEnd expected)
  | t :: ts => if t.kind = kind then .ok ts else .error (t.unexpected expected)

def takePunct (c : Char) : List Token → Parsed (List Token) :=
  takeKind (.punct c) (ticked (String.singleton c))

def takeThisWord (word : String) : List Token → Parsed (List Token) :=
  takeKind (.word word) word

def takeWord (expected : String) : List Token → Parsed (Taken String)
  | [] => .error (.unexpectedEnd expected)
  | t :: ts =>
    match t.word? with
    | some text => .ok (text, ts)
    | none => .error (t.unexpected expected)

def isOpening (k : TokenKind) : Bool :=
  k = .punct '(' || k = .punct '[' || k = .punct '\x7b'

def isClosing (k : TokenKind) : Bool :=
  k = .punct ')' || k = .punct ']' || k = .punct '\x7d'

/-- Takes the tokens up to a semicolon outside of brackets, and drops the semicolon. Brackets of all
kinds count as one, and closing ones too many do not count. -/
def upToSemicolon : Nat → List Token → Parsed (Taken (List Token))
  | _, [] => .error (.unexpectedEnd "`;`")
  | depth, t :: ts =>
    if t.kind = .punct ';' ∧ depth = 0 then .ok ([], ts)
    else do
      let inner :=
        if isOpening t.kind then depth + 1
        else if isClosing t.kind then depth - 1
        else depth
      let (taken, rest) ← upToSemicolon inner ts
      .ok (t :: taken, rest)

def skipStatement (ts : List Token) : Parsed (List Token) := do
  let (_, rest) ← upToSemicolon 0 ts
  .ok rest

/-- Skips past the closing bracket that belongs to one already open. `depth` counts further ones. -/
def skipPastClosing (opening closing : Char) : Nat → List Token → Parsed (List Token)
  | _, [] => .error (.unexpectedEnd (ticked (String.singleton closing)))
  | depth, t :: ts =>
    if t.kind = .punct opening then skipPastClosing opening closing (depth + 1) ts
    else if t.kind = .punct closing then
      match depth with
      | 0 => .ok ts
      | depth + 1 => skipPastClosing opening closing depth ts
    else skipPastClosing opening closing depth ts

def skipParens (ts : List Token) : Parsed (List Token) := do
  let ts ← takePunct '(' ts
  skipPastClosing '(' ')' 0 ts

def skipOptionalParens (ts : List Token) : Parsed (List Token) :=
  if atPunct '(' ts then skipParens ts else .ok ts

/-- Skips the head of a function and its body, or the semicolon instead of one. `depth` counts open
parentheses. -/
def skipHeadAndBody : Nat → List Token → Parsed (List Token)
  | 0, [] => .error (.unexpectedEnd "function body")
  | _ + 1, [] => .error (.unexpectedEnd "`)`")
  | 0, t :: ts =>
    if t.kind = .punct '(' then skipHeadAndBody 1 ts
    else if t.kind = .punct '\x7b' then skipPastClosing '\x7b' '\x7d' 0 ts
    else if t.kind = .punct ';' then .ok ts
    else skipHeadAndBody 0 ts
  | depth + 1, t :: ts =>
    if t.kind = .punct '(' then skipHeadAndBody (depth + 2) ts
    else if t.kind = .punct ')' then skipHeadAndBody depth ts
    else skipHeadAndBody (depth + 1) ts

def skipFunction (ts : List Token) : Parsed (List Token) :=
  skipHeadAndBody 0 (ts.drop 1)

def lastPart : String → List Token → Parsed (Taken String)
  | name, [] => .ok (name, [])
  | name, [t] => if t.kind = .punct '.' then .error (.unexpectedEnd "identifier") else .ok (name, [t])
  | name, t :: u :: ts =>
    if t.kind = .punct '.' then
      match u.word? with
      | some part => lastPart part ts
      | none => .error (u.unexpected "identifier")
    else .ok (name, t :: u :: ts)

def takePath (ts : List Token) : Parsed (Taken String) := do
  let (name, ts) ← takeWord "type name" ts
  lastPart name ts

/-- Brackets of an array type that are open: their line, further open brackets inside, and the tokens
so far, last first. -/
structure OpenBracket where
  line : Nat
  depth : Nat
  length : List Token

/-- The array type whose bracket closes. Without a length it is dynamic. -/
def OpenBracket.close (b : OpenBracket) (element : TypeExpr) : TypeExpr :=
  .array element (if b.length = [] then none else some b.length.reverse) b.line

def takeBrackets : TypeExpr → Option OpenBracket → List Token → Parsed (Taken TypeExpr)
  | ty, none, [] => .ok (ty, [])
  | _, some _, [] => .error (.unexpectedEnd "`]`")
  | ty, none, t :: ts =>
    if t.kind = .punct '[' then takeBrackets ty (some ⟨t.line, 0, []⟩) ts else .ok (ty, t :: ts)
  | ty, some b, t :: ts =>
    if t.kind = .punct '[' then takeBrackets ty (some ⟨b.line, b.depth + 1, t :: b.length⟩) ts
    else if t.kind = .punct ']' then
      if b.depth = 0 then takeBrackets (b.close ty) none ts
      else takeBrackets ty (some ⟨b.line, b.depth - 1, t :: b.length⟩) ts
    else takeBrackets ty (some ⟨b.line, b.depth, t :: b.length⟩) ts

/-- Takes the words behind the parameters of a function type. `depth` counts open parentheses of the
results. -/
def takeFunctionWords : Bool → Nat → List Token → Parsed (Taken Bool)
  | external, 0, [] => .ok (external, [])
  | _, _ + 1, [] => .error (.unexpectedEnd "`)`")
  | external, 0, t :: ts =>
    match t.word? with
    | some "external" => takeFunctionWords true 0 ts
    | some "internal" => takeFunctionWords external 0 ts
    | some "view" => takeFunctionWords external 0 ts
    | some "pure" => takeFunctionWords external 0 ts
    | some "payable" => takeFunctionWords external 0 ts
    | some "returns" =>
      match ts with
      | [] => .error (.unexpectedEnd "`(`")
      | u :: us =>
        if u.kind = .punct '(' then takeFunctionWords external 1 us
        else .error (u.unexpected "`(`")
    | _ => .ok (external, t :: ts)
  | external, depth + 1, t :: ts =>
    if t.kind = .punct '(' then takeFunctionWords external (depth + 2) ts
    else if t.kind = .punct ')' then takeFunctionWords external depth ts
    else takeFunctionWords external (depth + 1) ts

def takeFunctionType (ts : List Token) : Parsed (Taken TypeExpr) := do
  let ts ← skipParens ts
  let (external, ts) ← takeFunctionWords false 0 ts
  .ok (.function external, ts)

/-- Takes a type by name. `payable` may follow `address`. -/
def takeNamedType (line : Nat) (ts : List Token) : Parsed (Taken TypeExpr) := do
  let (name, ts) ← takePath ts
  .ok (.named name line, if name = "address" then skipThisWord "payable" ts else ts)

def takeType : Nat → List Token → Parsed (Taken TypeExpr)
  | _, [] => .error (.unexpectedEnd "type name")
  | 0, t :: _ => .error (t.unexpected "type name")
  | depth + 1, t :: ts => do
    let (ty, rest) ←
      match t.word? with
      | some "mapping" => do
        let ts ← takePunct '(' ts
        let (key, ts) ← takeType depth ts
        let ts ← takeKind .arrow "`=>`" (skipWord ts)
        let (value, ts) ← takeType depth ts
        let ts ← takePunct ')' (skipWord ts)
        .ok (.mapping key value, ts)
      | some "function" => takeFunctionType ts
      | some _ => takeNamedType t.line (t :: ts)
      | none => .error (t.unexpected "type name")
    takeBrackets ty none rest

def typeExpr (ts : List Token) : Parsed (Taken TypeExpr) :=
  takeType ts.length ts

def takeFields : Nat → List Token → Parsed (Taken (List (String × TypeExpr)))
  | _, [] => .error (.unexpectedEnd "type name")
  | 0, t :: _ => .error (t.unexpected "type name")
  | rounds + 1, t :: ts =>
    if t.kind = .punct '\x7d' then .ok ([], ts)
    else do
      let (ty, ts) ← typeExpr (t :: ts)
      let (name, ts) ← takeWord "field name" ts
      let ts ← takePunct ';' ts
      let (fields, ts) ← takeFields rounds ts
      .ok ((name, ty) :: fields, ts)

def takeStruct (ts : List Token) : Parsed (Taken StructItem) := do
  let (name, ts) ← takeWord "struct name" ts
  let ts ← takePunct '\x7b' ts
  let (fields, ts) ← takeFields ts.length ts
  .ok (⟨name, fields⟩, ts)

def countMembers : Nat → List Token → Parsed (Taken Nat)
  | _, [] => .error (.unexpectedEnd "`\x7d`")
  | count, t :: ts =>
    if t.word?.isSome then countMembers (count + 1) ts
    else if t.kind = .punct ',' then countMembers count ts
    else if t.kind = .punct '\x7d' then .ok (count, ts)
    else .error (t.unexpected "enum member")

def takeEnum (ts : List Token) : Parsed (Taken EnumItem) := do
  let (name, ts) ← takeWord "enum name" ts
  let ts ← takePunct '\x7b' ts
  let (members, ts) ← countMembers 0 ts
  .ok (⟨name, members⟩, ts)

def lineOf : List Token → Nat
  | [] => 0
  | t :: _ => t.line

def takeValueType (ts : List Token) : Parsed (Taken ValueTypeItem) := do
  let line := lineOf ts
  let (name, ts) ← takeWord "type name" ts
  let ts ← takeThisWord "is" ts
  let (underlying, ts) ← takeWord "underlying type" ts
  let ts ← takePunct ';' (if underlying = "address" then skipThisWord "payable" ts else ts)
  .ok (⟨name, underlying, line⟩, ts)

/-- The words between the type and the name of a variable. Of several of one sort the last counts. -/
structure Attributes where
  visibility : Option Visibility
  mutability : Mutability

namespace Attributes

def none : Attributes := ⟨Option.none, .mutable⟩

def add? (a : Attributes) : String → Option Attributes
  | "public" => some { a with visibility := some .public }
  | "internal" => some { a with visibility := some .internal }
  | "private" => some { a with visibility := some .private }
  | "constant" => some { a with mutability := .constant }
  | "immutable" => some { a with mutability := .immutable }
  | "transient" => some { a with mutability := .transient }
  | "override" => some a
  | _ => Option.none

end Attributes

def nameEnds (ts : List Token) : Bool :=
  ts.isEmpty || atPunct ';' ts || atPunct '=' ts

/-- Takes the attributes and the name of a variable. The word before the end is the name, whatever it
is. `depth` counts open parentheses behind `override`. -/
def takeAttributes : Attributes → Nat → List Token → Parsed (Taken (Attributes × String))
  | _, 0, [] => .error (.unexpectedEnd "variable name")
  | _, _ + 1, [] => .error (.unexpectedEnd "`)`")
  | a, 0, t :: ts =>
    match t.word? with
    | none => .error (t.unexpected "variable name")
    | some text =>
      if nameEnds ts then .ok ((a, text), ts)
      else
        match a.add? text, ts with
        | some a, u :: us =>
          if text = "override" ∧ u.kind = .punct '(' then takeAttributes a 1 us
          else takeAttributes a 0 (u :: us)
        | some _, [] => .error (.unexpectedEnd "variable name")
        | none, u :: _ => .error (u.unexpected "`;` or `=`")
        | none, [] => .error (.unexpectedEnd "`;`")
  | a, depth + 1, t :: ts =>
    if t.kind = .punct '(' then takeAttributes a (depth + 2) ts
    else if t.kind = .punct ')' then takeAttributes a depth ts
    else takeAttributes a (depth + 1) ts

def takeInit (ts : List Token) : Parsed (Taken (Option (List Token))) :=
  if atPunct '=' ts then do
    let (init, ts) ← upToSemicolon 0 (ts.drop 1)
    .ok (some init, ts)
  else do
    let ts ← takePunct ';' ts
    .ok (none, ts)

def takeVariable (ts : List Token) : Parsed (Taken VariableItem) := do
  let (ty, ts) ← typeExpr ts
  let ((attributes, name), ts) ← takeAttributes .none 0 ts
  let (init, ts) ← takeInit ts
  .ok (⟨name, ty, attributes.visibility, attributes.mutability, init⟩, ts)

def isFunctionWord (text : String) : Bool :=
  ["external", "internal", "public", "private", "view", "pure", "payable", "constant", "virtual",
    "override"].contains text

def isVariableName : Option TokenKind → Bool
  | some (.word text) => !isFunctionWord text
  | _ => false

/-- Looks for the end of a head: an equals sign, or a semicolon behind a name, ends a variable. `last`
is the last token outside of parentheses. -/
def headEndsInName : Nat → Option TokenKind → List Token → Bool
  | _, _, [] => false
  | depth, last, t :: ts =>
    if t.kind = .punct '(' then headEndsInName (depth + 1) last ts
    else if t.kind = .punct ')' then
      headEndsInName (depth - 1) (if depth - 1 = 0 then some t.kind else last) ts
    else if depth ≠ 0 then headEndsInName depth last ts
    else if t.kind = .punct '\x7b' then false
    else if t.kind = .punct '=' then true
    else if t.kind = .punct ';' then isVariableName last
    else headEndsInName depth (some t.kind) ts

/-- Whether the tokens behind the word `function` go on a variable of function type. A function has
a name there, or a body, or no name before its semicolon. -/
def declaresVariable (ts : List Token) : Bool :=
  atPunct '(' ts && headEndsInName 0 none ts

/-- Takes the bases of a contract. Arguments for their constructors are skipped. -/
def takeBases : Nat → List Token → Parsed (Taken (List String))
  | 0, _ => .error (.unexpectedEnd "type name")
  | rounds + 1, ts => do
    let (base, ts) ← takePath ts
    let ts ← skipOptionalParens ts
    if atPunct ',' ts then
      let (bases, ts) ← takeBases rounds (ts.drop 1)
      .ok (base :: bases, ts)
    else .ok ([base], ts)

def takeOptionalBases (ts : List Token) : Parsed (Taken (List String)) :=
  if peekWord? ts = some "is" then takeBases ts.length (ts.drop 1) else .ok ([], ts)

structure Members where
  declared : List VariableItem
  types : SourceUnit

namespace Members

def none : Members := ⟨[], .empty⟩

def ofTypes (u : SourceUnit) : Members := ⟨[], u⟩

def ofVariable (v : VariableItem) : Members := ⟨[v], .empty⟩

def append (m n : Members) : Members := ⟨m.declared ++ n.declared, m.types ++ n.types⟩

end Members

def takeMember (word : String) (ts : List Token) : Parsed (Taken Members) :=
  let skipped (r : Parsed (List Token)) : Parsed (Taken Members) := do .ok (.none, ← r)
  let stored : Parsed (Taken Members) := do
    let (v, ts) ← takeVariable ts
    .ok (.ofVariable v, ts)
  match word with
  | "function" => if declaresVariable (ts.drop 1) then stored else skipped (skipFunction ts)
  | "modifier" => skipped (skipFunction ts)
  | "constructor" => skipped (skipFunction ts)
  | "fallback" => skipped (skipFunction ts)
  | "receive" => skipped (skipFunction ts)
  | "event" => skipped (skipStatement ts)
  | "error" => skipped (skipStatement ts)
  | "using" => skipped (skipStatement ts)
  | "struct" => do
    let (s, ts) ← takeStruct (ts.drop 1)
    .ok (.ofTypes (.ofStruct s), ts)
  | "enum" => do
    let (e, ts) ← takeEnum (ts.drop 1)
    .ok (.ofTypes (.ofEnum e), ts)
  | "type" => do
    let (v, ts) ← takeValueType (ts.drop 1)
    .ok (.ofTypes (.ofValueType v), ts)
  | _ => stored

/-- Takes the members of a contract up to the closing brace. Stray punctuation between them is
dropped. -/
def takeMembers : Nat → List Token → Parsed (Taken Members)
  | _, [] => .error (.unexpectedEnd "`\x7d`")
  | 0, t :: _ => .error (t.unexpected "contract member")
  | rounds + 1, t :: ts =>
    match t.kind with
    | .punct c => if c = '\x7d' then .ok (.none, ts) else takeMembers rounds ts
    | .word word => do
      let (m, ts) ← takeMember word (t :: ts)
      let (ms, ts) ← takeMembers rounds ts
      .ok (m.append ms, ts)
    | _ => .error (t.unexpected "contract member")

def takeContract (kind : ContractKind) (ts : List Token) : Parsed (Taken SourceUnit) := do
  let (name, ts) ← takeWord "contract name" ts
  let (bases, ts) ← takeOptionalBases ts
  let ts ← takePunct '\x7b' ts
  let (members, ts) ← takeMembers ts.length ts
  .ok (members.types ++ .ofContract ⟨name, kind, bases, members.declared⟩, ts)

def takeItem (word : String) (ts : List Token) : Parsed (Taken SourceUnit) :=
  let skipped (r : Parsed (List Token)) : Parsed (Taken SourceUnit) := do .ok (.empty, ← r)
  match word with
  | "pragma" => skipped (skipStatement ts)
  | "import" => skipped (skipStatement ts)
  | "using" => skipped (skipStatement ts)
  | "event" => skipped (skipStatement ts)
  | "error" => skipped (skipStatement ts)
  | "function" => skipped (skipFunction ts)
  | "abstract" => do
    let ts ← takeThisWord "contract" (ts.drop 1)
    takeContract .abstract ts
  | "contract" => takeContract .plain (ts.drop 1)
  | "interface" => takeContract .interface (ts.drop 1)
  | "library" => takeContract .library (ts.drop 1)
  | "struct" => do
    let (s, ts) ← takeStruct (ts.drop 1)
    .ok (.ofStruct s, ts)
  | "enum" => do
    let (e, ts) ← takeEnum (ts.drop 1)
    .ok (.ofEnum e, ts)
  | "type" => do
    let (v, ts) ← takeValueType (ts.drop 1)
    .ok (.ofValueType v, ts)
  | _ => do
    let (v, ts) ← takeVariable ts
    .ok (.ofVariable v, ts)

/-- Takes declarations up to the end. What is no word is dropped between them. -/
def takeItems : Nat → List Token → Except SourceError SourceUnit
  | _, [] => .ok .empty
  | 0, _ :: _ => .ok .empty
  | rounds + 1, t :: ts =>
    match t.word? with
    | none => takeItems rounds ts
    | some word => do
      let (u, ts) ← takeItem word (t :: ts)
      let us ← takeItems rounds ts
      .ok (u ++ us)

def SourceUnit.ofTokens (ts : List Token) : Except SourceError SourceUnit :=
  takeItems ts.length ts

end ContractRegistry.Source
