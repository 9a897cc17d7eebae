import ContractRegistry.Tool.Echo
import ContractRegistry.Tool.Files
import ContractRegistry.Tool.Lines

/-!
The tools by their names.
-/
namespace ContractRegistry.Tool

def run? (name : String) (t : Task) : Option Outcome :=
  match name with
  | "[" => some (test true t)
  | "basename" => some (basename t)
  | "cat" => some (cat t)
  | "dirname" => some (dirname t)
  | "echo" => some (echo t)
  | "false" => some (t.leave [] 1)
  | "head" => some (head t)
  | "ls" => some (ls t)
  | "mkdir" => some (mkdir t)
  | "printf" => some (printf t)
  | "pwd" => some (pwd t)
  | "rev" => some (rev t)
  | "rm" => some (rm t)
  | "rmdir" => some (rmdir t)
  | "seq" => some (seq t)
  | "sleep" => some (sleep t)
  | "sort" => some (sort t)
  | "tail" => some (tail t)
  | "tee" => some (tee t)
  | "test" => some (test false t)
  | "touch" => some (touch t)
  | "tr" => some (tr t)
  | "true" => some (t.leave [] 0)
  | "uniq" => some (uniq t)
  | "wc" => some (wc t)
  | _ => none

end ContractRegistry.Tool
