import ContractRegistry.Numeral

/-!
Arguments of a command, read by a table of its options.

An option begins with two hyphens. Its value is attached with an equals sign or is the next argument.
All else is an operand, and behind a lone pair of hyphens everything is. A value is checked when the
next thing begins, so that an argument nobody knows is reported before a bad value in front of it.
-/
namespace ContractRegistry.CommandLine

inductive UsageError where
  | help
  | nothingGiven
  | missingCommand
  | unknownCommand (text : String)
  | unknownArgument (text : String)
  /-- No value, or an empty path. -/
  | missingValue (name : String)
  | needlessValue (name : String)
  | invalidCount (name : String) (text : String)
  | repeated (name : String)
  | missingArguments (names : List String)
deriving DecidableEq, Repr

namespace UsageError

def usageLine : String := "usage: onboard [--log-json] layout|batch [options] operands"

def message : UsageError → String
  | .help => usageLine
  | .nothingGiven => usageLine
  | .missingCommand => "a command is missing"
  | .unknownCommand text => "unknown command: " ++ text
  | .unknownArgument text => "unknown argument: " ++ text
  | .missingValue name => "a value is missing for " ++ name
  | .needlessValue name => "no value goes with " ++ name
  | .invalidCount name text => "invalid value for " ++ name ++ ": " ++ text
  | .repeated name => "more than once: " ++ name
  | .missingArguments names => "missing: " ++ ", ".intercalate names

def exitCode : UsageError → UInt8
  | .help => 0
  | _ => 2

end UsageError

inductive ValueKind where
  | text
  | path
  | count
deriving DecidableEq, Repr, Inhabited

def countLimit : Nat := 0x100000000

def count? (text : String) : Option Nat :=
  match text.toList with
  | '-' :: digits => do
    guard ((← Numeral.ofDigits? 10 Numeral.decimalDigit? digits) = 0)
    some 0
  | cs => Numeral.unsigned? countLimit cs

namespace ValueKind

def check (name : String) : ValueKind → String → Except UsageError Unit
  | .text, _ => .ok ()
  | .path, value => if value = "" then .error (.missingValue name) else .ok ()
  | .count, value => if (count? value).isSome then .ok () else .error (.invalidCount name value)

end ValueKind

inductive Arity where
  /-- Nothing; it is given once at most. -/
  | switch
  /-- A value; it is given once at most. -/
  | single (kind : ValueKind)
  /-- A value each time, even one that looks like an option. -/
  | repeated
deriving DecidableEq, Repr, Inhabited

structure Usage where
  options : List (String × Arity)
  operand : String
  operandKind : ValueKind
  /-- Whether there may be several operands. -/
  several : Bool
deriving DecidableEq, Repr, Inhabited

inductive Shape where
  /-- A lone pair of hyphens. -/
  | escape
  /-- An option, with the value attached to it. -/
  | option (name : String) (attached : Option String)
  /-- One hyphen and then this letter. -/
  | letter (c : Char)
  | plain
deriving DecidableEq, Repr, Inhabited

def splitAttached (cs : List Char) : Shape :=
  match cs.dropWhile fun c => c ≠ '=' with
  | [] => .option (String.ofList cs) none
  | _ :: value => .option (String.ofList (cs.takeWhile fun c => c ≠ '=')) (some (String.ofList value))

/-- The shape of an argument. A lone hyphen is plain. -/
def shape (text : String) : Shape :=
  match text.toList with
  | ['-', '-'] => .escape
  | '-' :: '-' :: cs => splitAttached cs
  | '-' :: c :: _ => .letter c
  | _ => .plain

inductive Owner where
  | option (name : String)
  | operand
deriving DecidableEq, Repr, Inhabited

/-- The values that have been checked, and the owner that still takes some, with those so far. -/
structure Reading where
  settled : List (Owner × List String)
  pending : Option (Owner × List String)
deriving DecidableEq, Repr, Inhabited

namespace Reading

def empty : Reading := ⟨[], none⟩

def has (r : Reading) (owner : Owner) : Bool :=
  r.settled.any fun entry => entry.1 = owner

def values (r : Reading) (owner : Owner) : List String :=
  (r.settled.filter fun entry => entry.1 = owner).flatMap Prod.snd

def value? (r : Reading) (name : String) : Option String :=
  (r.values (.option name)).head?

def hasOperand (r : Reading) : Bool :=
  r.has .operand || (r.pending.map Prod.fst) = some .operand

def add (r : Reading) (owner : Owner) (values : List String) : Reading :=
  ⟨r.settled ++ [(owner, values)], none⟩

end Reading

namespace Usage

def arity? (u : Usage) (name : String) : Option Arity :=
  u.options.lookup name

def ownerName (u : Usage) : Owner → String
  | .option name => "--" ++ name
  | .operand => u.operand

def kind (u : Usage) : Owner → ValueKind
  | .operand => u.operandKind
  | .option name =>
    match u.arity? name with
    | some (.single kind) => kind
    | _ => .text

def mayComeAgain (u : Usage) : Owner → Bool
  | .operand => u.several
  | .option name => u.arity? name = some .repeated

def settle (u : Usage) (r : Reading) : Except UsageError Reading :=
  match r.pending with
  | none => .ok r
  | some (owner, values) => do
    if values = [] then throw (.missingValue (u.ownerName owner))
    if r.has owner && !u.mayComeAgain owner then throw (.repeated (u.ownerName owner))
    let _ ← values.mapM ((u.kind owner).check (u.ownerName owner))
    .ok (r.add owner values)

def awaited? (r : Reading) : Option String :=
  match r.pending with
  | some (.option name, []) => some name
  | _ => none

def takesAnything (u : Usage) (r : Reading) : Bool :=
  match awaited? r with
  | some name => u.arity? name = some .repeated
  | none => false

def takeOperand (u : Usage) (r : Reading) (text : String) : Except UsageError Reading :=
  if !u.several && r.hasOperand then .error (.unknownArgument text)
  else
    match r.pending with
    | some (.operand, values) => .ok { r with pending := some (.operand, values ++ [text]) }
    | _ => do
      let r ← u.settle r
      .ok { r with pending := some (.operand, [text]) }

def takeSwitch (u : Usage) (r : Reading) (name : String) : Except UsageError Reading := do
  let r ← u.settle r
  if r.has (.option name) then throw (.repeated (u.ownerName (.option name)))
  .ok (r.add (.option name) [])

def takeValued (u : Usage) (r : Reading) (name : String) :
    Option String → Except UsageError Reading
  | none => do
    let r ← u.settle r
    .ok { r with pending := some (.option name, []) }
  | some value => do
    let r ← u.settle r
    u.settle { r with pending := some (.option name, [value]) }

def takeOption (u : Usage) (r : Reading) (text name : String) (attached : Option String) :
    Except UsageError Reading :=
  if name = "help" ∨ u.arity? name = some .switch then
    if attached.isSome then .error (.needlessValue ("--" ++ name))
    else if name = "help" then do
      let _ ← u.settle r
      .error .help
    else u.takeSwitch r name
  else if (u.arity? name).isSome then u.takeValued r name attached
  else .error (.unknownArgument text)

def takePlain (u : Usage) (r : Reading) (text : String) : Except UsageError Reading :=
  match awaited? r with
  | some name => .ok { r with pending := some (.option name, [text]) }
  | none => u.takeOperand r text

def take (u : Usage) (r : Reading) (text : String) : Except UsageError Reading :=
  if u.takesAnything r then u.takePlain r text
  else
    match shape text with
    | .option name attached => u.takeOption r text name attached
    | .letter 'h' => do
      let _ ← u.settle r
      .error .help
    | .letter _ => .error (.unknownArgument text)
    | _ => u.takePlain r text

def takeAll (u : Usage) : Reading → List String → Except UsageError Reading
  | r, [] => .ok r
  | r, text :: texts =>
    if shape text = .escape ∧ u.takesAnything r = false then texts.foldlM u.takeOperand r
    else do u.takeAll (← u.take r text) texts

def read (u : Usage) (arguments : List String) : Except UsageError Reading := do
  u.settle (← u.takeAll .empty arguments)

end Usage

end ContractRegistry.CommandLine
