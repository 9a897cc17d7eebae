import ContractRegistry.Json.Number

/-!
Writing JSON, on one line or with one item a line and two spaces for each level.
-/
namespace ContractRegistry.Json

def numericEscape (c : Char) : List Char :=
  '\\' :: 'u' :: ContractRegistry.Numeral.hexDigits 4 c.toNat

/-- A character inside a string. Only the quote, the backslash and control characters are escaped. -/
def escapeChar (c : Char) : List Char :=
  if c = '"' then ['\\', '"']
  else if c = '\\' then ['\\', '\\']
  else if c = '\x08' then ['\\', 'b']
  else if c = '\x0c' then ['\\', 'f']
  else if c = '\n' then ['\\', 'n']
  else if c = '\r' then ['\\', 'r']
  else if c = '\t' then ['\\', 't']
  else if c.toNat < 0x20 then numericEscape c
  else [c]

def quote (text : String) : String :=
  "\"" ++ String.ofList (text.toList.flatMap escapeChar) ++ "\""

def newline (level : Nat) : String :=
  "\n" ++ String.ofList (List.replicate (2 * level) ' ')

def boolText (truth : Bool) : String :=
  if truth then "true" else "false"

namespace Value

mutual

def compact : Value → String
  | .null => "null"
  | .bool truth => boolText truth
  | .number n => n.text
  | .string text => quote text
  | .array items => "[" ++ compactItems items ++ "]"
  | .object members => "\x7b" ++ compactMembers members ++ "\x7d"

def compactItems : List Value → String
  | [] => ""
  | [v] => compact v
  | v :: vs => compact v ++ "," ++ compactItems vs

def compactMembers : List (String × Value) → String
  | [] => ""
  | [(key, v)] => quote key ++ ":" ++ compact v
  | (key, v) :: vs => quote key ++ ":" ++ compact v ++ "," ++ compactMembers vs

end

mutual

def prettyAt (level : Nat) : Value → String
  | .null => "null"
  | .bool truth => boolText truth
  | .number n => n.text
  | .string text => quote text
  | .array [] => "[]"
  | .array items => "[" ++ prettyItems (level + 1) items ++ newline level ++ "]"
  | .object [] => "\x7b\x7d"
  | .object members => "\x7b" ++ prettyMembers (level + 1) members ++ newline level ++ "\x7d"

def prettyItems (level : Nat) : List Value → String
  | [] => ""
  | [v] => newline level ++ prettyAt level v
  | v :: vs => newline level ++ prettyAt level v ++ "," ++ prettyItems level vs

def prettyMembers (level : Nat) : List (String × Value) → String
  | [] => ""
  | [(key, v)] => newline level ++ quote key ++ ": " ++ prettyAt level v
  | (key, v) :: vs =>
    newline level ++ quote key ++ ": " ++ prettyAt level v ++ "," ++ prettyMembers level vs

end

def pretty (v : Value) : String :=
  prettyAt 0 v

end Value

end ContractRegistry.Json
