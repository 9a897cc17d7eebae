/-!
Styled text for terminals.

A style is switched on by an escape sequence in front of the text and off by one behind it. Text that
switches styles off by itself is put back into its style. Without colours, nothing is added.
-/
namespace ContractRegistry.Console

inductive Style where
  | title
  | value
  | faint
  | stage
  | success
  | warning
  | failure
deriving DecidableEq, Repr, Inhabited

def Style.codes : Style → String
  | .title => "1;34"
  | .value => "36"
  | .faint => "2"
  | .stage => "33"
  | .success => "1;32"
  | .warning => "1;33"
  | .failure => "1;31"

def Style.start (s : Style) : List Char :=
  '\x1b' :: '[' :: s.codes.toList ++ ['m']

def reset : List Char := ['\x1b', '[', '0', 'm']

/-- Switches a style on again behind each place where styles are switched off. -/
def restart (start : List Char) : List Char → List Char
  | '\x1b' :: '[' :: '0' :: 'm' :: cs => reset ++ start ++ restart start cs
  | c :: cs => c :: restart start cs
  | [] => []

def padEnd (width : Nat) (cs : List Char) : List Char :=
  cs ++ List.replicate (width - cs.length) ' '

structure Terminal where
  color : Bool
deriving DecidableEq, Repr, Inhabited

namespace Terminal

/-- Text in a style, in a column of a width. The spaces are in the style too. -/
def column (t : Terminal) (s : Style) (width : Nat) (text : String) : String :=
  String.ofList
    (if t.color then s.start ++ padEnd width (restart s.start text.toList) ++ reset
    else padEnd width text.toList)

def paint (t : Terminal) (s : Style) (text : String) : String :=
  t.column s 0 text

end Terminal

end ContractRegistry.Console
