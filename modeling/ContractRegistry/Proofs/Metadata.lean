import ContractRegistry.Metadata
import ContractRegistry.Proofs.Json.Record
import ContractRegistry.Proofs.Json.Settled
import ContractRegistry.Proofs.Outcome

/-!
Which interfaces are accepted: those within the limit of nesting of one document.

An interface in a document has one level less than the limit, but one that the document gives as a
text is a document of its own.
-/
namespace ContractRegistry.Metadata

open Json (Value Tree Kept)

theorem kept_valueField? {depth : Nat} {t : Option Tree} {v : Value}
    (read : valueField? depth t = some v) : Kept depth v := by
  cases t with
  | none =>
    obtain rfl : Value.null = v := by simpa [valueField?] using read
    exact Json.kept_null depth
  | some t => exact Json.kept_of_value? t depth v read

theorem kept_read? {document : Tree} {raw : Metadata} (read : read? document = some raw) :
    Kept Json.depthLimit raw.interface := by
  obtain ⟨fields, -, read⟩ := Option.bind_eq_some_iff.mp read
  split at read
  · obtain ⟨name, -, read⟩ := Option.bind_eq_some_iff.mp read
    obtain ⟨interface, field, read⟩ := Option.bind_eq_some_iff.mp read
    obtain ⟨source, -, read⟩ := Option.bind_eq_some_iff.mp read
    obtain rfl := Option.some.inj read
    exact Json.kept_mono (by decide) (kept_valueField? field)
  · contradiction

theorem kept_normalInterface {v w : Value} (kept : Kept Json.depthLimit v)
    (normal : normalInterface v = .ok w) : Kept Json.depthLimit w := by
  unfold normalInterface at normal
  split at normal
  · obtain rfl := Except.ok.inj normal
    exact kept
  · obtain rfl := Except.ok.inj normal
    exact kept
  · split at normal
    · obtain rfl := Except.ok.inj normal
      exact Json.kept_null _
    · split at normal
      · contradiction
      · next entries read =>
        obtain rfl := Except.ok.inj normal
        obtain ⟨t, -, value⟩ := Option.bind_eq_some_iff.mp read
        exact Json.kept_of_value? t _ _ value
      · contradiction
  · contradiction

theorem orMalformed_eq_ok {α : Type} {address : Address} {x : Except String α} {a : α}
    (ok : orMalformed address x = .ok a) : x = .ok a := by
  cases x with
  | error reason => contradiction
  | ok b => rw [Except.ok.inj ok]

theorem parts_of_accepted {address : Address} {text : String} {m : Metadata}
    (accepted : ofDocument address text = .ok m) :
    ∃ raw, (Json.Grammar.document? (Json.piecesOf text)).bind read? = some raw ∧ raw.name = m.name ∧
      normalInterface raw.interface = .ok m.interface ∧ flatSource raw.source = .ok m.source ∧
        Text.isAllBlank m.source.toList = false := by
  unfold ofDocument at accepted
  split at accepted
  · contradiction
  · next raw read =>
    obtain ⟨source, flat, accepted⟩ := bind_eq_ok.mp accepted
    split at accepted
    · contradiction
    · next visible =>
      obtain ⟨interface, normal, accepted⟩ := bind_eq_ok.mp accepted
      obtain rfl := Except.ok.inj accepted
      exact ⟨raw, read, rfl, orMalformed_eq_ok normal, orMalformed_eq_ok flat,
        Bool.eq_false_iff.mpr visible⟩

/-- An accepted interface nests within the limit of one document, in whichever way it was given. -/
theorem kept_ofDocument {address : Address} {text : String} {m : Metadata}
    (accepted : ofDocument address text = .ok m) : Kept Json.depthLimit m.interface := by
  obtain ⟨raw, read, -, normal, -⟩ := parts_of_accepted accepted
  obtain ⟨document, -, read⟩ := Option.bind_eq_some_iff.mp read
  exact kept_normalInterface (kept_read? read) normal

def documentOf (interface : Value) : Value :=
  .object [("abi", .string interface.pretty), ("name", .string "T"),
    ("source_code", .string "contract T;")]

theorem ofDocument_documentOf (address : Address) {entries : List Value}
    (settled : (Value.array entries).Settled)
    (nested : (Value.array entries).nest ≤ Json.depthLimit) :
    ofDocument address (documentOf (.array entries)).pretty =
      .ok ⟨"T", .array entries, "contract T;"⟩ := by
  have whole : (documentOf (.array entries)).Whole := by
    refine .object _ ?_
    simp only [List.forall_mem_cons]
    exact ⟨.string _, .string _, .string _, by simp⟩
  have fields : read? (documentOf (.array entries)).tree =
      some ⟨"T", .string (Value.array entries).pretty, "contract T;"⟩ := by
    rw [read?, documentOf, Value.tree, Tree.record?, Json.named?_memberTrees]
    simp [fieldNames, Tree.onlyMember?, textField?, valueField?, Tree.stringText?, Value.tree,
      Tree.value?, Json.contentText?_escaped]
  have source : flatSource "contract T;" = .ok "contract T;" := by
    rw [flatSource, if_neg (by decide)]
  have normal : normalInterface (.string (Value.array entries).pretty) = .ok (.array entries) := by
    have text := Json.ofText?_pretty settled nested
    obtain ⟨cs, begins⟩ : ∃ cs, (Value.array entries).pretty.toList = '[' :: cs := by
      cases entries <;> simp [Value.pretty, Value.prettyAt]
    have visible : Text.isAllBlank (Value.array entries).pretty.toList = false := by
      rw [begins]
      rfl
    simp [normalInterface, visible, text]
  have visible : ¬ Text.isAllBlank "contract T;".toList = true := by decide
  rw [ofDocument, Json.document?_pretty whole, Option.bind_some, fields]
  simp only [source, normal, orMalformed]
  refine bind_eq_ok.mpr ⟨_, rfl, ?_⟩
  rw [if_neg visible]
  rfl

theorem accepted_iff {entries : List Value} (settled : (Value.array entries).Settled) :
    (∃ address text m, ofDocument address text = .ok m ∧ m.interface = .array entries) ↔
      (Value.array entries).nest ≤ Json.depthLimit := by
  constructor
  · rintro ⟨address, text, m, accepted, same⟩
    have kept := kept_ofDocument accepted
    rw [same] at kept
    exact (kept settled.whole).2
  · intro nested
    exact ⟨0, _, _, ofDocument_documentOf 0 settled nested, rfl⟩

end ContractRegistry.Metadata
