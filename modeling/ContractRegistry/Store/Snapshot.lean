import ContractRegistry.FileTree
import ContractRegistry.Json.Printer
import ContractRegistry.Json.Record
import ContractRegistry.Store

/-!
Snapshots: a store as a document.

Writing and reading agree on the fields and their order. Reading allows each record to be an array of
its fields too, an address to lack its `0x` or to be an array of bytes, and unknown fields.
-/
namespace ContractRegistry.Snapshot

open Json (Value Tree)

def numbers (ns : List Nat) : Value :=
  .array (ns.map Value.nat)

def assignment (a : Assignment) : Value :=
  .object [("name", .string a.name), ("slot", .nat a.slot), ("offset", .nat a.offset),
    ("size", .nat a.size), ("signature", .string a.signature), ("role", .string a.role.name)]

def layout (l : Layout) : Value :=
  .object [("assignments", .array (l.assignments.map assignment)), ("slots_used", .nat l.slotsUsed)]

def contract (c : Contract) : Value :=
  .object [("address", .string c.address.hex), ("name", .string c.name), ("abi", c.interface),
    ("layout", layout c.layout), ("event_ids", numbers c.events)]

def store (s : Store) : Value :=
  .object [("next_contract_id", .nat s.lastContract), ("next_event_id", .nat s.lastEvent),
    ("events", .object (s.events.map fun (name, id) => (name, .nat id))),
    ("contracts", .object (s.contracts.map fun (id, c) => (toString id, contract c)))]

def encode (s : Store) : String :=
  (store s).pretty

def required (read : Tree → Option α) : Option Tree → Option α
  | some t => read t
  | none => none

def plainRecord? (names : List String) (t : Tree) : Option (List (Option Tree)) :=
  t.record? (names.map fun name => [name])

def number? (t : Tree) : Option Nat :=
  t.natural? Numeral.limit64

def byte? (t : Tree) : Option Nat :=
  t.natural? 256

/-- Nothing, or one plain value that is no byte: what an address of bytes may end with. -/
def isIdleEnd : List Tree → Bool
  | [] => true
  | [.array _] => false
  | [.object _] => false
  | [t] => (byte? t).isNone
  | _ => false

/-- An address: a string of digits, or an array of twenty bytes. A value after the bytes is passed over
if it is plain and no byte. -/
def address? : Tree → Option Address
  | .string content => do Address.ofHex? (← Tree.text? content)
  | .array items => do
    let bytes ← (items.take Address.byteCount).mapM byte?
    guard (isIdleEnd (items.drop Address.byteCount))
    Address.ofBytes? bytes
  | _ => none

def role? : Tree → Option Role
  | .string content => do Role.ofName? (← Tree.contentText? content)
  | .object [(name, .null)] => do Role.ofName? (← Tree.contentText? name)
  | _ => none

def assignment? (t : Tree) : Option Assignment := do
  match ← plainRecord? ["name", "slot", "offset", "size", "signature", "role"] t with
  | [name, slot, offset, size, signature, role] =>
    some ⟨← required Tree.stringText? name, ← required number? slot, ← required byte? offset,
      ← required number? size, ← required Tree.stringText? signature, ← required role? role⟩
  | _ => none

def assignments? (t : Tree) : Option (List Assignment) := do
  (← t.items?).mapM assignment?

def layout? (t : Tree) : Option Layout := do
  match ← plainRecord? ["assignments", "slots_used"] t with
  | [assignments, slotsUsed] =>
    some ⟨← required assignments? assignments, ← required number? slotsUsed⟩
  | _ => none

def numbers? (t : Tree) : Option (List Nat) := do
  (← t.items?).mapM number?

/-- A contract. Its interface is a value that nests at most `depth` deep. -/
def contract? (depth : Nat) (t : Tree) : Option Contract := do
  match ← plainRecord? ["address", "name", "abi", "layout", "event_ids"] t with
  | [address, name, interface, layout, events] =>
    some ⟨← required address? address, ← required Tree.stringText? name,
      ← required (Tree.value? depth) interface, ← required layout? layout,
      ← required numbers? events⟩
  | _ => none

def numberName? (content : List Text.Utf8.Piece) : Option Nat := do
  match ← Json.Grammar.numeral content with
  | (n, []) => number? (.number n)
  | _ => none

def events? (t : Tree) : Option (List (String × Nat)) := do
  let members ← (← t.members?).mapM fun (name, id) => do
    some (← Tree.contentText? name, ← number? id)
  some (Json.sortMembers members)

/-- Contracts by number. The last of a number counts. -/
def contracts? (depth : Nat) (t : Tree) : Option (List (Nat × Contract)) := do
  let members ← (← t.members?).mapM fun (name, c) => do
    some (← numberName? name, ← contract? depth c)
  some (members.foldl (fun placed (id, c) => Store.place id c placed) [])

/-- A store. An interface lies in a contract, among the contracts, in the store. -/
def store? (t : Tree) : Option Store := do
  match ← plainRecord? ["next_contract_id", "next_event_id", "events", "contracts"] t with
  | [lastContract, lastEvent, events, contracts] =>
    some ⟨← required number? lastContract, ← required number? lastEvent, ← required events? events,
      ← required (contracts? (Json.depthLimit - 3)) contracts⟩
  | _ => none

def decode? (pieces : List Text.Utf8.Piece) : Option Store := do
  store? (← Json.Grammar.document? pieces)

/-- The store in what reading a file gave. A file that is not there is an empty store. -/
def ofFile : Except FileError (List UInt8) → Except StoreError Store
  | .error .notFound => .ok .empty
  | .error e => .error (.io e.message)
  | .ok bytes =>
    match decode? (Text.Utf8.pieces bytes) with
    | some s => .ok s
    | none => .error (.snapshot Json.refusal)

def toFile (s : Store) : List UInt8 :=
  Text.Utf8.encode (encode s).toList

def written : Except FileError α → Except StoreError α
  | .ok a => .ok a
  | .error e => .error (.io e.message)

end ContractRegistry.Snapshot
