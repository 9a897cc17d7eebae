import ContractRegistry.Shell.Integer
import ContractRegistry.Shell.Word

/-!
Arithmetic in scripts: integers of 64 bits, variables, and assignments to them.

What a condition leaves out is read and not done, so that it may divide by zero.
-/
namespace ContractRegistry.Shell.Arithmetic

inductive Symbol where
  | number (n : Int)
  | name (text : String)
  | operator (text : String)
  | unknown
deriving DecidableEq, Repr, Inhabited

inductive Fault where
  | expecting (what : String)
  | divisionByZero
  | notNumeric (value : String)
deriving DecidableEq, Repr, Inhabited

def Fault.message (expression : String) : Fault → String
  | .expecting what =>
    "arithmetic expression: expecting " ++ what ++ ": \"" ++ expression ++ "\""
  | .divisionByZero => "arithmetic expression: division by zero: \"" ++ expression ++ "\""
  | .notNumeric value => "Illegal number: " ++ value

def operators : List String :=
  ["<<=", ">>=", "||", "&&", "==", "!=", "<=", ">=", "<<", ">>", "*=", "/=", "%=", "+=", "-=", "&=",
    "^=", "|=", "+", "-", "*", "/", "%", "<", ">", "!", "~", "&", "^", "|", "(", ")", "=", "?", ":"]

def operator? (cs : List Char) : Option String :=
  operators.find? fun o => o.toList.isPrefixOf cs

/-- The symbols of an expression. Each turn takes a character at least, and `fuel` bounds the
turns. -/
def symbols : Nat → List Char → List Symbol
  | 0, _ => []
  | _ + 1, [] => []
  | fuel + 1, c :: cs =>
    if c = ' ' || c = '\t' || c = '\n' then symbols fuel cs
    else if c.isDigit then
      match Integer.natural? true (c :: cs) with
      | some (n, rest) => .number (Integer.clamp n) :: symbols fuel rest
      | none => [.unknown]
    else if isNameStart c then
      .name (String.ofList (c :: cs.takeWhile isNameChar)) :: symbols fuel (cs.dropWhile isNameChar)
    else
      match operator? (c :: cs) with
      | some o => .operator o :: symbols fuel ((c :: cs).drop o.length)
      | none => [.unknown]

def levels : List (List String) :=
  [["|"], ["^"], ["&"], ["==", "!="], ["<", "<=", ">", ">="], ["<<", ">>"], ["+", "-"],
    ["*", "/", "%"]]

def assignments : List String :=
  ["=", "*=", "/=", "%=", "+=", "-=", "<<=", ">>=", "&=", "^=", "|="]

def truth (b : Bool) : Int := if b then 1 else 0

def bitwise (f : Nat → Nat → Nat) (a b : Int) : Int :=
  Integer.wrap (f (Integer.bits a) (Integer.bits b))

/-- Applies an operator. Division goes toward zero, and there is none by zero. -/
def apply (operator : String) (a b : Int) : Except Fault Int :=
  let shift : Nat := Integer.bits b % 64
  match operator with
  | "|" => .ok (bitwise (· ||| ·) a b)
  | "^" => .ok (bitwise (· ^^^ ·) a b)
  | "&" => .ok (bitwise (· &&& ·) a b)
  | "==" => .ok (truth (a = b))
  | "!=" => .ok (truth (a ≠ b))
  | "<" => .ok (truth (a < b))
  | "<=" => .ok (truth (a ≤ b))
  | ">" => .ok (truth (a > b))
  | ">=" => .ok (truth (a ≥ b))
  | "<<" => .ok (Integer.wrap (a * Nat.pow 2 shift))
  | ">>" => .ok (Int.fdiv a (Nat.pow 2 shift))
  | "+" => .ok (Integer.wrap (a + b))
  | "-" => .ok (Integer.wrap (a - b))
  | "*" => .ok (Integer.wrap (a * b))
  | "/" => if b = 0 then .error .divisionByZero else .ok (Integer.wrap (a.tdiv b))
  | "%" => if b = 0 then .error .divisionByZero else .ok (a.tmod b)
  | _ => .ok b

/-- The symbols that are left, and the values that variables were given, the last one first. -/
structure Progress where
  symbols : List Symbol
  assigned : List (String × Int)
deriving DecidableEq, Repr, Inhabited

abbrev Step := StateT Progress (Except Fault)

def peek : Step (Option Symbol) := do
  pure (← get).symbols.head?

def advance : Step Unit :=
  modify fun p => { p with symbols := p.symbols.tail }

def expect (text : String) : Step Unit := do
  if (← peek) = some (.operator text) then advance
  else throw (.expecting ("'" ++ text ++ "'"))

/-- The number that a variable has. One without a value is zero. -/
def valueOf (value : String → String) (name : String) : Step Int := do
  match (← get).assigned.lookup name with
  | some n => pure n
  | none =>
    match Integer.ofText? true (value name) with
    | some n => pure n
    | none => throw (.notNumeric (value name))

def assign (name : String) (n : Int) : Step Unit :=
  modify fun p => { p with assigned := (name, n) :: p.assigned }

mutual

/-- The value of an assignment, or of a condition. With `idle` nothing is done. -/
def assignment (value : String → String) : Nat → Bool → Step Int
  | 0, _ => throw (.expecting "primary")
  | fuel + 1, idle => do
    match (← get).symbols with
    | .name name :: .operator o :: rest =>
      if assignments.contains o then
        modify fun p => { p with symbols := rest }
        let n ← assignment value fuel idle
        if idle then pure n
        else
          let n ← if o = "=" then pure n
            else apply (String.ofList o.toList.dropLast) (← valueOf value name) n
          assign name n
          pure n
      else condition value fuel idle
    | _ => condition value fuel idle

def condition (value : String → String) : Nat → Bool → Step Int
  | 0, _ => throw (.expecting "primary")
  | fuel + 1, idle => do
    let a ← disjunction value fuel idle
    if (← peek) = some (.operator "?") then
      advance
      let b ← assignment value fuel (idle || a = 0)
      expect ":"
      let c ← condition value fuel (idle || a ≠ 0)
      pure (if a ≠ 0 then b else c)
    else pure a

def disjunction (value : String → String) : Nat → Bool → Step Int
  | 0, _ => throw (.expecting "primary")
  | fuel + 1, idle => do
    let a ← conjunction value fuel idle
    if (← peek) = some (.operator "||") then
      advance
      let b ← disjunction value fuel (idle || a ≠ 0)
      pure (truth (a ≠ 0 || b ≠ 0))
    else pure a

def conjunction (value : String → String) : Nat → Bool → Step Int
  | 0, _ => throw (.expecting "primary")
  | fuel + 1, idle => do
    let a ← operation value fuel levels idle
    if (← peek) = some (.operator "&&") then
      advance
      let b ← conjunction value fuel (idle || a = 0)
      pure (truth (a ≠ 0 && b ≠ 0))
    else pure a

def operation (value : String → String) : Nat → List (List String) → Bool → Step Int
  | 0, _, _ => throw (.expecting "primary")
  | fuel + 1, [], idle => operand value fuel idle
  | fuel + 1, level :: stronger, idle => do
    let a ← operation value fuel stronger idle
    operationAfter value fuel level stronger idle a

def operationAfter (value : String → String) :
    Nat → List String → List (List String) → Bool → Int → Step Int
  | 0, _, _, _, _ => throw (.expecting "primary")
  | fuel + 1, level, stronger, idle, a => do
    match ← peek with
    | some (.operator o) =>
      if level.contains o then
        advance
        let b ← operation value fuel stronger idle
        operationAfter value fuel level stronger idle (← if idle then pure b else apply o a b)
      else pure a
    | _ => pure a

def operand (value : String → String) : Nat → Bool → Step Int
  | 0, _ => throw (.expecting "primary")
  | fuel + 1, idle => do
    let symbol ← peek
    advance
    match symbol with
    | some (.number n) => pure n
    | some (.name name) => if idle then pure 0 else valueOf value name
    | some (.operator "+") => operand value fuel idle
    | some (.operator "-") => pure (Integer.wrap (-(← operand value fuel idle)))
    | some (.operator "!") => pure (truth ((← operand value fuel idle) = 0))
    | some (.operator "~") => pure (-1 - (← operand value fuel idle))
    | some (.operator "(") =>
      let n ← assignment value fuel idle
      expect ")"
      pure n
    | _ => throw (.expecting "primary")

end

/-- The value of an expression, and the values that variables are given, the last one first. -/
def evaluate (value : String → String) (expression : List Char) :
    Except Fault (Int × List (String × Int)) := do
  let symbols := symbols (expression.length + 1) expression
  let (n, p) ← (assignment value (16 * symbols.length + 16) false).run ⟨symbols, []⟩
  if p.symbols = [] then .ok (n, p.assigned) else .error (.expecting "EOF")

end ContractRegistry.Shell.Arithmetic
