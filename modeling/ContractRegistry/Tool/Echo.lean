import ContractRegistry.Shell.Condition
import ContractRegistry.Shell.Format
import ContractRegistry.Tool.Outcome

/-!
Tools that write their arguments or decide about them.
-/
namespace ContractRegistry.Tool

open Shell.Escape (bytesOf)

def isEchoLetter (c : Char) : Bool :=
  c = 'n' || c = 'e' || c = 'E'

def echoLetters? (argument : String) : Option (List Char) :=
  match argument.toList with
  | '-' :: c :: cs => if (c :: cs).all isEchoLetter then some (c :: cs) else none
  | _ => none

/-- What `echo` writes. Options stand in front: no line break, backslashes read, or not. -/
def echoed (line escapes : Bool) : List String → List UInt8
  | [] => if line then [10] else []
  | argument :: rest =>
    match echoLetters? argument with
    | some letters =>
      let last := (letters.filter fun c => c ≠ 'n').getLast?
      echoed (line && !letters.contains 'n') ((last.map fun c => c == 'e').getD escapes) rest
    | none =>
      let text := " ".intercalate (argument :: rest)
      let w := if escapes then Shell.Escape.unescape true text else ⟨bytesOf text, false⟩
      w.bytes ++ if line && !w.stopped then [10] else []

def echo (t : Task) : Outcome :=
  t.give (echoed true false t.arguments)

def valueComplaint : Shell.Format.Complaint → String
  | .notNumeric value => quoted value ++ ": expected a numeric value"
  | .notConverted value => quoted value ++ ": value not completely converted"
  | .outOfRange value => quoted value ++ ": Numerical result out of range"

def formatComplaint : Shell.Format.Failure → String
  | .invalidDirective directive => directive ++ ": invalid conversion specification"
  | .missingLetter => "%: invalid conversion specification"

def printf (t : Task) : Outcome :=
  let arguments := if t.arguments.head? = some "--" then t.arguments.tail else t.arguments
  match arguments with
  | [] => t.misuse "missing operand"
  | format :: values =>
    let p := Shell.Format.printf true format values
    let failure := match p.ending with
      | some (.failed cause) => [t.complaint (formatComplaint cause)]
      | _ => []
    let complaints := (p.complaints.reverse.map fun c => t.complaint (valueComplaint c)) ++ failure
    t.leave (complaints ++ [.output p.bytes]) (if complaints = [] then 0 else 1)

def conditionComplaint : Shell.Condition.Fault → String
  | .missingBracket => "missing " ++ quoted "]"
  | .unexpectedOperator word => "extra argument " ++ quoted word
  | .missingArgument operator => "missing argument after " ++ quoted operator
  | .missingParenthesis => quoted ")" ++ " expected"
  | .notNumeric word => "invalid integer " ++ quoted word

def test (bracket : Bool) (t : Task) : Outcome :=
  match Shell.Condition.decide? t.files bracket t.arguments with
  | .ok holds => t.leave [] (if holds then 0 else 1)
  | .error fault => t.refuse (conditionComplaint fault) 2

def integer? (text : String) : Option Int :=
  Shell.Integer.ofText? false text

/-- The numbers from one to another by a step that is not zero, with `fuel` many at most. -/
def numbers (step last : Int) : Nat → Int → List Int
  | 0, _ => []
  | fuel + 1, n =>
    if (0 < step && last < n) || (step < 0 && n < last) then []
    else n :: numbers step last fuel (n + step)

def padded (width : Nat) (n : Int) : String :=
  let sign := if n < 0 then ['-'] else []
  let digits := (toString n.natAbs).toList
  String.ofList (sign ++ List.replicate (width - (sign.length + digits.length)) '0' ++ digits)

def sequence (separator : String) (equal : Bool) (first step last : Int) : List UInt8 :=
  let ns := numbers step last ((last - first).natAbs / step.natAbs + 1) first
  let width := if equal then max (toString first).length (toString last).length else 0
  if ns = [] then []
  else bytesOf (separator.intercalate (ns.map (padded width)) ++ "\n")

def isOperand (argument : String) : Bool :=
  (integer? argument).isSome || argument.toList.head? ≠ some '-'

def sequenceOptions (separator : String) (equal : Bool) : List String → String × Bool × List String
  | "-w" :: rest => sequenceOptions separator true rest
  | "-s" :: text :: rest => sequenceOptions text equal rest
  | a :: rest =>
    match a.toList with
    | '-' :: 's' :: text => sequenceOptions (String.ofList text) equal rest
    | _ => (separator, equal, a :: rest)
  | [] => (separator, equal, [])

def seq (t : Task) : Outcome :=
  let (separator, equal, operands) := sequenceOptions "\n" false t.arguments
  let run (first step last : Int) : Outcome :=
    if step = 0 then t.misuse ("invalid Zero increment value: " ++ quoted (operands.getD 1 ""))
    else t.give (sequence separator equal first step last)
  match operands.find? fun a => !isOperand a with
  | some a => t.misuse ("invalid option -- " ++ quoted (String.ofList ((a.toList.drop 1).take 1)))
  | none =>
    match operands.drop 3, operands.find? fun a => (integer? a).isNone with
    | extra :: _, _ => t.misuse ("extra operand " ++ quoted extra)
    | [], some a => t.misuse ("invalid floating point argument: " ++ quoted a)
    | [], none =>
      match operands.filterMap integer? with
      | [last] => run 1 1 last
      | [first, last] => run first 1 last
      | [first, step, last] => run first step last
      | _ => t.misuse "missing operand"

def sleep (t : Task) : Outcome :=
  let isInterval (a : String) : Bool :=
    match Shell.Decimal.leading? a.toList with
    | some (n, rest) => !n.negative && (rest = [] || ["s", "m", "h", "d"].contains (String.ofList rest))
    | none => false
  if t.arguments = [] then t.misuse "missing operand"
  else
    match t.arguments.find? fun a => !isInterval a with
    | some a => t.misuse ("invalid time interval " ++ quoted a)
    | none => t.leave [] 0

def lastPart (path : String) : String :=
  let cs := Text.dropEndWhile (fun c => c = '/') path.toList
  if cs = [] then (if path = "" then "" else "/")
  else String.ofList ((cs.reverse.takeWhile fun c => c ≠ '/').reverse)

def withoutSuffix (name suffix : String) : String :=
  let rest := name.toList.take (name.length - suffix.length)
  if suffix ≠ "" && name ≠ suffix && rest ++ suffix.toList = name.toList then String.ofList rest
  else name

def basename (t : Task) : Outcome :=
  match t.arguments with
  | [] => t.misuse "missing operand"
  | [path] => t.give (linesOf [lastPart path])
  | [path, suffix] => t.give (linesOf [withoutSuffix (lastPart path) suffix])
  | _ :: _ :: extra :: _ => t.misuse ("extra operand " ++ quoted extra)

def parentPath (path : String) : String :=
  let isSlash (c : Char) : Bool := c = '/'
  let cs := Text.dropEndWhile isSlash path.toList
  let parent := Text.dropEndWhile (fun c => !isSlash c) cs
  if cs = [] then (if path = "" then "." else "/")
  else if parent = [] then "."
  else
    match Text.dropEndWhile isSlash parent with
    | [] => "/"
    | rest => String.ofList rest

def dirname (t : Task) : Outcome :=
  if t.arguments = [] then t.misuse "missing operand"
  else t.give (linesOf (t.arguments.map parentPath))

def pwd (t : Task) : Outcome :=
  t.give (linesOf ["/" ++ "/".intercalate t.files.directory.reverse])

end ContractRegistry.Tool
