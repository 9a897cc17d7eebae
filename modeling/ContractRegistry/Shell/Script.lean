/-!
Scripts of the shell: commands, the words that they are made of, and where their streams lead.
-/
namespace ContractRegistry.Shell

inductive Parameter where
  | variable (name : String)
  /-- The argument of a number. The name of the shell has number zero. -/
  | argument (number : Nat)
  /-- All arguments, each one by itself. -/
  | arguments
  /-- All arguments with a separator between them. -/
  | joined
  | argumentCount
  | status
  | process
  /-- The last process that was started to run beside the shell. -/
  | lastProcess
  | options
deriving DecidableEq, Repr, Inhabited

/-- What is done with the value of a parameter. The text behind an operator is kept as it is written.
`blank` tells that an empty value counts as none. -/
inductive Use where
  | plain
  | length
  | fallback (blank : Bool) (text : List Char)
  | assignment (blank : Bool) (text : List Char)
  | required (blank : Bool) (text : List Char)
  | replacement (blank : Bool) (text : List Char)
  | withoutEnd (longest : Bool) (pattern : List Char)
  | withoutStart (longest : Bool) (pattern : List Char)
deriving DecidableEq, Repr, Inhabited

/-- A part of a word. What is not quoted falls apart at separators when it comes from a value. -/
inductive Part where
  | text (quoted : Bool) (cs : List Char)
  | parameter (quoted : Bool) (p : Parameter) (use : Use)
  /-- Braces that name no parameter. -/
  | broken
  | arithmetic (quoted : Bool) (expression : List Char)
  /-- What a script writes that begins on a line. -/
  | output (quoted : Bool) (line : Nat) (script : List Char)
deriving DecidableEq, Repr, Inhabited

abbrev Word := List Part

inductive Target where
  | input (path : Word)
  | output (path : Word)
  /-- A file that is written even where files are to be kept. -/
  | replacement (path : Word)
  | appended (path : Word)
  | both (path : Word)
  /-- Another stream, or none for a hyphen. -/
  | stream (name : Word)
  | document (body : Word)
deriving DecidableEq, Repr, Inhabited

structure Redirection where
  stream : Nat
  target : Target
deriving DecidableEq, Repr, Inhabited

structure Simple where
  line : Nat
  assignments : List (String × Word)
  words : List Word
  redirections : List Redirection
deriving DecidableEq, Repr, Inhabited

inductive Command where
  | nothing
  | simple (parts : Simple)
  | redirected (line : Nat) (redirections : List Redirection) (body : Command)
  | sequence (first second : Command)
  | both (first second : Command)
  | either (first second : Command)
  | negation (body : Command)
  | pipe (first second : Command)
  | background (body : Command)
  | subshell (line : Nat) (body : Command)
  | branch (condition positive negative : Command)
  /-- Goes on as long as the condition ends well, or until it does. -/
  | loop (untilIt : Bool) (condition body : Command)
  /-- Goes through words, or through the arguments. -/
  | each (line : Nat) (name : String) (words : Option (List Word)) (body : Command)
  /-- Takes the first case with a pattern that fits. -/
  | choice (line : Nat) (subject : Word) (cases : Command)
  | case (patterns : List Word) (body others : Command)
  | definition (line : Nat) (name : String) (body : Command)
deriving DecidableEq, Repr, Inhabited

end ContractRegistry.Shell
