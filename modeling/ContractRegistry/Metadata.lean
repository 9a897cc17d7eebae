import ContractRegistry.Address
import ContractRegistry.FileTree
import ContractRegistry.Json.Record

/-!
Published metadata of contracts: the name, the interface and the source.

The interface may be a string that holds the document, and the source may be a document of several
files, which are put together in the order of their names.
-/
namespace ContractRegistry

open Json (Value)

/-- The metadata of a contract. The interface is an array, or null when none was published. -/
structure Metadata where
  name : String
  interface : Value
  source : String
deriving Repr, Inhabited

inductive FetchError where
  | notFound (address : Address)
  | transient (reason : String)
  | malformed (address : Address) (reason : String)
deriving DecidableEq, Repr

namespace FetchError

def message : FetchError → String
  | .notFound address => "no verified metadata for " ++ address.checksummed
  | .transient reason => "metadata source unavailable: " ++ reason
  | .malformed address reason =>
    "malformed metadata for " ++ address.checksummed ++ ": " ++ reason

def isTransient : FetchError → Bool
  | .transient _ => true
  | _ => false

end FetchError

namespace Metadata

/-- The fields of a document. Each has names of its own with different publishers. -/
def fieldNames : List (List String) :=
  [["name", "ContractName", "contractName"], ["abi", "ABI"],
    ["source_code", "SourceCode", "sourceCode"]]

def textField? : Option Json.Tree → Option String
  | none => some ""
  | some t => t.stringText?

def valueField? (depth : Nat) : Option Json.Tree → Option Value
  | none => some .null
  | some t => t.value? depth

def read? (document : Json.Tree) : Option Metadata := do
  match ← document.record? fieldNames with
  | [name, interface, source] =>
    some ⟨← textField? name, ← valueField? (Json.depthLimit - 1) interface, ← textField? source⟩
  | _ => none

def notArray : String := "ABI is not a JSON array"

/-- The interface as an array. One that is a string is read; a blank one is none. -/
def normalInterface : Value → Except String Value
  | .null => .ok .null
  | .array entries => .ok (.array entries)
  | .string text =>
    if Text.isAllBlank text.toList then .ok .null
    else
      match Value.ofText? text with
      | none => .error ("ABI is not valid JSON: " ++ Json.refusal)
      | some (.array entries) => .ok (.array entries)
      | some _ => .error notArray
  | _ => .error notArray

def unwrapped (cs : List Char) : List Char :=
  if ['\x7b', '\x7b'].isPrefixOf cs && ['\x7d', '\x7d'].isSuffixOf cs then (cs.drop 1).dropLast
  else cs

def content? (file : Value) : Option String := do
  (← file.member? "content").text?

def concatenated (files : List (String × Value)) : String :=
  String.join ((files.filterMap fun f => content? f.2).map fun content => content ++ "\n")

/-- The source as one text. One that begins with a brace is a document of several files. -/
def flatSource (source : String) : Except String String :=
  let trimmed := Text.trim source.toList
  if trimmed.head? = some '\x7b' then
    match Value.ofText? (String.ofList (unwrapped trimmed)) with
    | none => .error ("invalid multi-file source: " ++ Json.refusal)
    | some document =>
      match (document.member? "sources").bind Value.members? with
      | some files => .ok (concatenated files)
      | none => .error "multi-file source has no `sources`"
  else .ok source

def orMalformed (address : Address) : Except String α → Except FetchError α
  | .ok a => .ok a
  | .error reason => .error (.malformed address reason)

/-- The metadata in a document. Without a source there is none. -/
def ofDocument (address : Address) (text : String) : Except FetchError Metadata :=
  match (Json.Grammar.document? (Json.piecesOf text)).bind read? with
  | none => .error (.malformed address Json.refusal)
  | some raw => do
    let source ← orMalformed address (flatSource raw.source)
    if Text.isAllBlank source.toList then .error (.notFound address)
    else
      let interface ← orMalformed address (normalInterface raw.interface)
      .ok ⟨raw.name, interface, source⟩

def path (directory : String) (address : Address) : String :=
  FileTree.join directory (address.hex ++ ".json")

def ofFile (address : Address) : Except FileError String → Except FetchError Metadata
  | .ok text => ofDocument address text
  | .error .notFound => .error (.notFound address)
  | .error e => .error (.transient e.message)

end Metadata

end ContractRegistry
