import ContractRegistry.Proofs.Json.Extent
import ContractRegistry.Proofs.Source.Flattened

/-!
Documents that say the same in different ways.

Publishers have names of their own for the fields, give them in an order of their own, give the interface as
a value or as a text of it, and put a source of several files into one more pair of braces. None of this
changes the metadata that a document stands for, nor why it stands for none.
-/
namespace ContractRegistry.Metadata

open Json (Value Tree Bare piecesOf)
open Json.Grammar (document?)
open Text.Utf8 (Piece)

/-- A text is an object with the three fields, each under one of its names, and with other members that are
no fields, all of them in any order. -/
inductive Gives (text name : String) (interface : Tree) (source : String) : Prop where
  | object {members : List (List Piece × Tree)} {named others : List (String × Tree)}
    {nameKey interfaceKey sourceKey : String} {nameTree sourceTree : Tree}
    (document : document? (piecesOf text) = some (.object members))
    (readable : Tree.named? members = some named)
    (order : named.Perm
      ([(nameKey, nameTree), (interfaceKey, interface), (sourceKey, sourceTree)] ++ others))
    (keys : List.Forall₂ (fun names key => key ∈ names) fieldNames [nameKey, interfaceKey, sourceKey])
    (apart : ∀ o ∈ others, ∀ names ∈ fieldNames, o.1 ∉ names)
    (nameText : nameTree.stringText? = some name)
    (sourceText : sourceTree.stringText? = some source)

/-- How an interface is given: as the array of its entries, or as a string with the text of that array. -/
inductive Offers (entries : List Value) : Tree → Prop where
  | inPlace {t : Tree} {depth : Nat} (value : t.value? depth = some (.array entries)) : Offers entries t
  | asText {content : List Piece} {text : String} (string : Tree.contentText? content = some text)
    (value : Value.ofText? text = some (.array entries)) : Offers entries (.string content)

def IsObjectText (text : String) : Prop :=
  ∃ members, document? (piecesOf text) = some (.object members) ∧ Bare text.toList

/-- A source is given again as it is, or the text of an object in one more pair of braces. -/
inductive Restates (source : String) : String → Prop where
  | same : Restates source source
  | braced (object : IsObjectText source) : Restates source ("\x7b" ++ source ++ "\x7d")

def Decodes (text : String) : Prop :=
  ∃ raw, (document? (piecesOf text)).bind read? = some raw

theorem gives_pretty {fields : List (String × Value)} {nameKey interfaceKey sourceKey name source : String}
    {interface : Value} (whole : (Value.object fields).Whole)
    (order : fields.Perm
      [(nameKey, .string name), (interfaceKey, interface), (sourceKey, .string source)])
    (keys : List.Forall₂ (fun names key => key ∈ names) fieldNames [nameKey, interfaceKey, sourceKey]) :
    Gives (Value.object fields).pretty name interface.tree source := by
  have order' : (fields.map fun f => (f.1, f.2.tree)).Perm
      ([(nameKey, (Value.string name).tree), (interfaceKey, interface.tree),
        (sourceKey, (Value.string source).tree)] ++ []) := order.map fun f => (f.1, f.2.tree)
  exact .object (Json.document?_pretty whole) (Json.named?_memberTrees fields) order' keys nofun
    (Json.contentText?_escaped name) (Json.contentText?_escaped source)

theorem disjoint_fieldNames : fieldNames.Pairwise List.Disjoint := by
  simp [fieldNames, List.disjoint_left]

section
variable {text name source : String} {interface : Tree} {entries : List Value}

theorem read?_of_gives (gives : Gives text name interface source) :
    (document? (piecesOf text)).bind read? =
      (interface.value? (Json.depthLimit - 1)).map fun v => ⟨name, v, source⟩ := by
  cases gives with
  | object document readable order keys apart nameText sourceText =>
    have found := Json.mapM_onlyMember? order disjoint_fieldNames keys apart
    simp only [document, Option.bind_some, read?, Tree.record?, readable, Option.bind_eq_bind, found, List.map_cons,
      List.map_nil, textField?, valueField?, nameText, sourceText]
    cases interface.value? (Json.depthLimit - 1) <;> rfl

/-- Only an interface that nests too deep in its place keeps a document from being read. -/
theorem decodes_iff (gives : Gives text name interface source) :
    Decodes text ↔ ∃ v, interface.value? (Json.depthLimit - 1) = some v := by
  rw [Decodes, read?_of_gives gives]
  cases interface.value? (Json.depthLimit - 1) <;> simp

theorem normalInterface_of_offers (offers : Offers entries interface) {depth : Nat} {v : Value}
    (value : interface.value? depth = some v) : normalInterface v = .ok (.array entries) := by
  cases offers with
  | inPlace given =>
    obtain rfl := Json.value?_unique given value
    rfl
  | @asText content text string given =>
    rw [Tree.value?, string] at value
    obtain rfl := Option.some.inj value
    have visible : Text.isAllBlank text.toList = false := by
      refine Bool.eq_false_iff.mpr fun blank => ?_
      rw [Json.ofText?_blank blank] at given
      contradiction
    simp [normalInterface, visible, given]

/-- The text within the braces is the same one, so nothing changes where it cannot be read either. -/
theorem flatSource_restates {source' : String} (restates : Restates source source') :
    flatSource source' = flatSource source := by
  cases restates with
  | same => rfl
  | braced object =>
    obtain ⟨members, document, bare⟩ := object
    obtain ⟨inside, text⟩ := Json.object_text document bare
    obtain rfl : String.ofList ('\x7b' :: (inside ++ ['\x7d'])) = source := by
      rw [← text, String.ofList_toList]
    have outer : "\x7b" ++ String.ofList ('\x7b' :: (inside ++ ['\x7d'])) ++ "\x7d" =
        String.ofList ([] ++ '\x7b' :: ('\x7b' :: (inside ++ ['\x7d']) ++ ['\x7d']) ++ []) := by
      apply String.toList_inj.mp
      simp
    have inner : '\x7b' :: (inside ++ ['\x7d']) = [] ++ '\x7b' :: (inside ++ ['\x7d']) ++ [] := by simp
    rw [outer]
    conv => rhs; rw [inner]
    refine flatSource_congr nofun nofun nofun nofun ?_
    exact (unwrapped_wrapped inside).trans (unwrapped_of_document document).symm

def assembled (address : Address) (name : String) (entries : List Value) (source : String) :
    Except FetchError Metadata := do
  let source ← orMalformed address (flatSource source)
  if Text.isAllBlank source.toList then .error (.notFound address) else .ok ⟨name, .array entries, source⟩

theorem ofDocument_eq_assembled (address : Address) (gives : Gives text name interface source)
    (offers : Offers entries interface) (decodes : Decodes text) :
    ofDocument address text = assembled address name entries source := by
  obtain ⟨v, value⟩ := (decodes_iff gives).mp decodes
  have normal := normalInterface_of_offers offers value
  rw [ofDocument, read?_of_gives gives, value, Option.map_some]
  simp only [normal, assembled]
  rfl

theorem normalInterface_eq_ok {v w : Value} (normal : normalInterface v = .ok w) :
    w = .null ∨ ∃ entries, w = .array entries := by
  unfold normalInterface at normal
  split at normal
  · exact .inl (Except.ok.inj normal).symm
  · exact .inr ⟨_, (Except.ok.inj normal).symm⟩
  · split at normal
    · exact .inl (Except.ok.inj normal).symm
    · split at normal
      · contradiction
      · exact .inr ⟨_, (Except.ok.inj normal).symm⟩
      · contradiction
  · contradiction

/-- Documents with the same name, entries and source stand for the same, in whichever way they say so, and
accepted metadata has an array or null for its interface and a source to read. -/
theorem equivalent_documents_alike (address : Address) :
    (∀ (text text' name source source' : String) (interface interface' : Tree) (entries : List Value),
      Gives text name interface source → Gives text' name interface' source' →
      Offers entries interface → Offers entries interface' → Restates source source' →
      Decodes text → Decodes text' → ofDocument address text = ofDocument address text') ∧
    ∀ (text : String) (m : Metadata), ofDocument address text = .ok m →
      (m.interface = .null ∨ ∃ entries, m.interface = .array entries) ∧
        Text.isAllBlank m.source.toList = false := by
  constructor
  · intro text text' name source source' interface interface' entries gives gives' offers offers' restates
      decodes decodes'
    rw [ofDocument_eq_assembled address gives offers decodes,
      ofDocument_eq_assembled address gives' offers' decodes', assembled, assembled,
      flatSource_restates restates]
  · intro text m accepted
    obtain ⟨raw, -, -, normal, -, visible⟩ := parts_of_accepted accepted
    exact ⟨normalInterface_eq_ok normal, visible⟩

end

/-- The document of a contract with the three fields under the names of one publisher. -/
def plainDocument : Value :=
  .object [("name", .string "T"), ("abi", .array [.null]),
    ("source_code", .string (String.ofList twoFileText))]

def wrappedDocument : Value :=
  .object [("SourceCode", .string ("\x7b" ++ String.ofList twoFileText ++ "\x7d")),
    ("ABI", .string (Value.array [.null]).pretty), ("ContractName", .string "T")]

theorem isObjectText_twoFileText : IsObjectText (String.ofList twoFileText) := by
  refine ⟨Value.memberTrees [("sources", .object twoFiles)], ?_, ?_⟩
  · rw [twoFileText, String.ofList_toList]
    exact Json.document?_pretty settled_twoFiles.whole
  · rw [String.toList_ofList]
    refine ⟨fun c first => ?_, fun c last => ?_⟩
    · rw [multiFile_twoFiles.opens] at first
      obtain rfl := Option.some.inj first
      decide
    · rw [multiFile_twoFiles.closes] at last
      obtain rfl := Option.some.inj last
      decide

theorem gives_plainDocument :
    Gives plainDocument.pretty "T" (Value.array [.null]).tree (String.ofList twoFileText) := by
  have whole : plainDocument.Whole := by
    refine .object _ ?_
    simp only [List.forall_mem_cons]
    exact ⟨.string _, .array _ (List.forall_mem_singleton.mpr .null), .string _, by simp⟩
  exact gives_pretty whole (.refl _) (by simp [fieldNames])

theorem gives_wrappedDocument :
    Gives wrappedDocument.pretty "T" (Value.string (Value.array [.null]).pretty).tree
      ("\x7b" ++ String.ofList twoFileText ++ "\x7d") := by
  have whole : wrappedDocument.Whole := by
    refine .object _ ?_
    simp only [List.forall_mem_cons]
    exact ⟨.string _, .string _, .string _, by simp⟩
  exact gives_pretty whole (List.reverse_perm _).symm (by simp [fieldNames])

theorem equivalent_plain_wrapped :
    ∃ interface interface',
      (Gives plainDocument.pretty "T" interface (String.ofList twoFileText) ∧
        Gives wrappedDocument.pretty "T" interface' ("\x7b" ++ String.ofList twoFileText ++ "\x7d") ∧
          Offers [.null] interface ∧ Offers [.null] interface' ∧
            ofDocument 0 plainDocument.pretty = ofDocument 0 wrappedDocument.pretty) ∧
      ∃ m, ofDocument 0 plainDocument.pretty = .ok m ∧
        (m.interface = .null ∨ ∃ entries, m.interface = .array entries) ∧
          Text.isAllBlank m.source.toList = false := by
  have settled : (Value.array [.null]).Settled := .array _ (List.forall_mem_singleton.mpr .null)
  have offers : Offers [.null] (Value.array [.null]).tree := .inPlace (Json.value?_tree settled 1)
  have offers' : Offers [.null] (Value.string (Value.array [.null]).pretty).tree :=
    .asText (Json.contentText?_escaped _) (Json.ofText?_pretty settled (by decide))
  have decodes := (decodes_iff gives_plainDocument).mpr ⟨_, Json.value?_tree settled _⟩
  have decodes' := (decodes_iff gives_wrappedDocument).mpr ⟨_, Json.value?_tree (.string _) _⟩
  have accepted : ofDocument 0 plainDocument.pretty =
      .ok ⟨"T", .array [.null], concatenated twoFiles⟩ := by
    have visible : ¬ Text.isAllBlank (concatenated twoFiles).toList = true := by decide +kernel
    rw [ofDocument_eq_assembled 0 gives_plainDocument offers decodes, assembled,
      multiFile_twoFiles.flatSource_eq]
    exact bind_eq_ok.mpr ⟨_, rfl, if_neg visible⟩
  have alike := (equivalent_documents_alike 0).1 _ _ _ _ _ _ _ _ gives_plainDocument gives_wrappedDocument
    offers offers' (.braced isObjectText_twoFileText) decodes decodes'
  exact ⟨_, _, ⟨gives_plainDocument, gives_wrappedDocument, offers, offers', alike⟩, _, accepted,
    (equivalent_documents_alike 0).2 _ _ accepted⟩

end ContractRegistry.Metadata
