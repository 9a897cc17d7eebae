import ContractRegistry.Numeral
import ContractRegistry.Text.Hidden

/-!
Quoting of text in messages, so that every character can be seen.
-/
namespace ContractRegistry.Text.Quoted

def hexText (n : Nat) : String :=
  String.ofList (Nat.toDigits 16 n)

def numbered (c : Char) : String :=
  "\\u\x7b" ++ hexText c.toNat ++ "\x7d"

def quoteChar (c : Char) : String :=
  if c = '"' then "\\\""
  else if c = '\\' then "\\\\"
  else if c = '\x00' then "\\0"
  else if c = '\t' then "\\t"
  else if c = '\n' then "\\n"
  else if c = '\r' then "\\r"
  else if Hidden.isHidden c then numbered c
  else String.singleton c

def quote (text : String) : String :=
  "\"" ++ String.join (text.toList.map quoteChar) ++ "\""

end ContractRegistry.Text.Quoted
