import ContractRegistry.FileTree
import ContractRegistry.Shell.Integer

/-!
Conditions on texts, numbers and files, as words.

What a word means depends on the words behind it: an operator before another one is an operand.
-/
namespace ContractRegistry.Shell.Condition

inductive Kind where
  | unary
  | binary
  | negation
  | conjunction
  | disjunction
  | opening
  | closing
deriving DecidableEq, Repr, Inhabited

def unaryOperators : List String :=
  ["-r", "-w", "-x", "-e", "-f", "-d", "-c", "-b", "-p", "-u", "-g", "-k", "-s", "-t", "-z", "-n", "-h",
    "-O", "-G", "-L", "-S"]

def binaryOperators : List String :=
  ["=", "!=", "<", ">", "-eq", "-ne", "-ge", "-gt", "-le", "-lt", "-nt", "-ot", "-ef"]

def kind? (word : String) : Option Kind :=
  match word with
  | "!" => some .negation
  | "-a" => some .conjunction
  | "-o" => some .disjunction
  | "(" => some .opening
  | ")" => some .closing
  | _ =>
    if unaryOperators.contains word then some .unary
    else if binaryOperators.contains word then some .binary
    else none

inductive Fault where
  | missingBracket
  | unexpectedOperator (word : String)
  | missingArgument (operator : String)
  | missingParenthesis
  | notNumeric (word : String)
deriving DecidableEq, Repr, Inhabited

def Fault.message : Fault → String
  | .missingBracket => "missing ]"
  | .unexpectedOperator word => word ++ ": unexpected operator"
  | .missingArgument operator => operator ++ ": argument expected"
  | .missingParenthesis => "closing paren expected"
  | .notNumeric word => "Illegal number: " ++ word

abbrev Decided := Except Fault (Bool × List String)

def isOperand (ws : List String) : Bool :=
  match ws with
  | [] => true
  | [_] => false
  | w :: _ => kind? w = some .binary

inductive Token where
  | ending
  | operand
  | operator (k : Kind)
deriving DecidableEq, Repr, Inhabited

def token : List String → Token
  | [] => .ending
  | w :: ws =>
    match kind? w with
    | none => .operand
    | some k =>
      if (k = .unary && isOperand ws) || (k = .opening && ws = []) then .operand else .operator k

def linkOf (t : FileTree) (path : String) : Option FileEntry :=
  match t.split path with
  | .ok (parent, name, false) => t.entry? (name :: parent)
  | _ => none

def fileHas (t : FileTree) (path : String) (p : FileEntry → Bool) : Bool :=
  match t.find path with
  | .ok e => p e
  | .error _ => false

def unary (t : FileTree) (operator operand : String) : Except Fault Bool :=
  match operator with
  | "-n" => .ok (operand ≠ "")
  | "-z" => .ok (operand = "")
  | "-t" => match Integer.ofText? false operand with
    | some _ => .ok false
    | none => .error (.notNumeric operand)
  | "-f" => .ok (fileHas t operand fun
      | .file _ => true
      | .program _ => true
      | _ => false)
  | "-d" => .ok (fileHas t operand fun e => e = .directory)
  | "-x" => .ok (fileHas t operand fun
      | .directory => true
      | .program _ => true
      | _ => false)
  | "-s" => .ok (fileHas t operand fun
      | .file bytes => bytes ≠ []
      | .sink => false
      | .full => false
      | _ => true)
  | "-c" => .ok (fileHas t operand fun e => e = .sink || e = .full)
  | "-h" => .ok (match linkOf t operand with
      | some (.link _) => true
      | _ => false)
  | "-L" => .ok (match linkOf t operand with
      | some (.link _) => true
      | _ => false)
  | _ =>
    if ["-b", "-p", "-S", "-u", "-g", "-k"].contains operator then .ok false
    else .ok (fileHas t operand fun _ => true)

def number (word : String) : Except Fault Int :=
  match Integer.ofText? false word with
  | some n => .ok n
  | none => .error (.notNumeric word)

def numbers (test : Int → Int → Bool) (a b : String) : Except Fault Bool := do
  .ok (test (← number a) (← number b))

def binary (t : FileTree) (a operator b : String) : Except Fault Bool :=
  let isThere (path : String) : Bool := fileHas t path fun _ => true
  match operator with
  | "=" => .ok (a = b)
  | "!=" => .ok (a ≠ b)
  | "<" => .ok (decide (a < b))
  | ">" => .ok (decide (b < a))
  | "-eq" => numbers (fun m n => m = n) a b
  | "-ne" => numbers (fun m n => m ≠ n) a b
  | "-ge" => numbers (fun m n => m ≥ n) a b
  | "-gt" => numbers (fun m n => m > n) a b
  | "-le" => numbers (fun m n => m ≤ n) a b
  | "-lt" => numbers (fun m n => m < n) a b
  | "-ef" => .ok (isThere a && isThere b && (t.locate a).toOption = (t.locate b).toOption)
  | _ => .ok false

mutual

/-- Decides about conditions of which one must hold. The words begin with a token. -/
def disjunction (t : FileTree) : Nat → Token → List String → Decided
  | 0, _, ws => .ok (false, ws)
  | fuel + 1, k, ws => do
    let (a, ws) ← conjunction t fuel k ws
    if token ws.tail = .operator .disjunction then
      let ws := ws.drop 2
      let (b, ws) ← disjunction t fuel (token ws) ws
      .ok (a || b, ws)
    else .ok (a, ws)

def conjunction (t : FileTree) : Nat → Token → List String → Decided
  | 0, _, ws => .ok (false, ws)
  | fuel + 1, k, ws => do
    let (a, ws) ← negation t fuel k ws
    if token ws.tail = .operator .conjunction then
      let ws := ws.drop 2
      let (b, ws) ← conjunction t fuel (token ws) ws
      .ok (a && b, ws)
    else .ok (a, ws)

def negation (t : FileTree) : Nat → Token → List String → Decided
  | 0, _, ws => .ok (false, ws)
  | fuel + 1, k, ws => do
    if k = .operator .negation then
      let next := token ws.tail
      let (a, ws) ← negation t fuel next (if next = .ending then ws else ws.tail)
      .ok (!a, ws)
    else basic t fuel k ws

def basic (t : FileTree) : Nat → Token → List String → Decided
  | 0, _, ws => .ok (false, ws)
  | fuel + 1, k, ws =>
    match k, ws with
    | .ending, ws => .ok (false, ws)
    | _, [] => .ok (false, [])
    | .operator .opening, _ :: ws => do
      if token ws = .operator .closing then .ok (false, ws)
      else
        let (a, ws) ← disjunction t fuel (token ws) ws
        if token ws.tail = .operator .closing then .ok (a, ws.tail)
        else .error .missingParenthesis
    | .operator .unary, operator :: ws =>
      match ws with
      | [] => .error (.missingArgument operator)
      | operand :: _ => do .ok (← unary t operator operand, ws)
    | _, a :: rest =>
      match token rest, rest with
      | .operator .binary, operator :: rest =>
        match rest with
        | [] => .error (.missingArgument operator)
        | b :: _ => do .ok (← binary t a operator b, rest)
      | _, _ => .ok (a ≠ "", a :: rest)

end

/-- The condition of a number of words. Three words with an operator between them are no other condition,
and words in parentheses or behind an exclamation mark are shorter ones. Such marks negate once. -/
def decideWords (t : FileTree) : Nat → Bool → List String → Except Fault Bool
  | 0, _, _ => .ok false
  | fuel + 1, negated, ws =>
    let evaluate (k : Token) (ws : List String) : Except Fault Bool := do
      let (a, rest) ← disjunction t (8 * ws.length + 8) k ws
      match rest with
      | w :: _ :: _ => .error (.unexpectedOperator w)
      | _ => .ok (a != negated)
    let isBinary := ws.length = 3 && (ws[1]?.bind kind?) = some .binary
    if ws = [] then .ok negated
    else if isBinary then evaluate .operand ws
    else if ws.length = 3 || ws.length = 4 then
      if ws.head? = some "(" && ws.getLast? = some ")" then
        evaluate (token ws.tail.dropLast) ws.tail.dropLast
      else if ws.head? = some "!" then decideWords t fuel true ws.tail
      else evaluate (token ws) ws
    else evaluate (token ws) ws

def decide? (t : FileTree) (bracket : Bool) (ws : List String) : Except Fault Bool :=
  if bracket then
    if ws.getLast? = some "]" then decideWords t 5 false ws.dropLast else .error .missingBracket
  else decideWords t 5 false ws

end ContractRegistry.Shell.Condition
