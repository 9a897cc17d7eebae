import ContractRegistry.Proofs.Metadata
import ContractRegistry.Proofs.Source.Lines

/-!
Documents of several files, and the one text that they are put together to.

The files stand in the order of their names. The text declares what they declare by themselves, since
each file ends its last line: nothing in it reaches into the next.
-/
namespace ContractRegistry

open Json (Value Tree)

namespace Text

theorem trim_padded {before middle after : List Char} {first last : Char}
    (blank : ∀ c ∈ before, isBlank c = true) (blank' : ∀ c ∈ after, isBlank c = true)
    (begins : isBlank first = false) (ends : isBlank last = false) :
    trim (before ++ first :: (middle ++ [last]) ++ after) = first :: (middle ++ [last]) := by
  have front : (before ++ first :: (middle ++ [last]) ++ after).dropWhile isBlank =
      first :: middle ++ last :: after := by
    rw [List.append_assoc, List.dropWhile_append_of_pos blank, List.cons_append,
      List.dropWhile_cons_of_neg (by simp [begins])]
    simp
  have turned : (first :: middle ++ last :: after).reverse =
      after.reverse ++ last :: (first :: middle).reverse := by simp
  have back : (first :: middle ++ last :: after).reverse.dropWhile isBlank =
      last :: (first :: middle).reverse := by
    rw [turned, List.dropWhile_append_of_pos (by simpa using blank'),
      List.dropWhile_cons_of_neg (by simp [ends])]
  rw [trim, dropEndWhile, front, back]
  simp

end Text

namespace Json

theorem exists_members {t : Tree} {depth : Nat} {members : List (String × Value)}
    (read : t.value? depth = some (.object members)) :
    ∃ depth ts entries, Tree.memberValues? depth ts = some entries ∧
      members = sortMembers entries := by
  unfold Tree.value? at read
  split at read
  case h_6 =>
    split at read
    · contradiction
    · obtain ⟨entries, values, sorted⟩ := Option.map_eq_some_iff.mp read
      exact ⟨_, _, entries, values, (Value.object.inj sorted).symm⟩
  case h_5 =>
    split at read
    · contradiction
    · obtain ⟨vs, -, other⟩ := Option.map_eq_some_iff.mp read
      contradiction
  case h_3 | h_4 =>
    obtain ⟨v, -, other⟩ := Option.map_eq_some_iff.mp read
    contradiction
  case h_1 | h_2 => cases read

theorem ordered_of_value? {t : Tree} {depth : Nat} {members : List (String × Value)}
    (read : t.value? depth = some (.object members)) : Ordered members := by
  obtain ⟨_, _, entries, -, rfl⟩ := exists_members read
  rw [sortMembers_eq_foldl]
  exact ordered_foldl_insertEntry entries

theorem exists_of_memberValues? {ts : List (List Text.Utf8.Piece × Tree)} {depth : Nat}
    {entries : List (String × Value)} (read : Tree.memberValues? depth ts = some entries)
    {e : String × Value} (member : e ∈ entries) : ∃ t : Tree, t.value? depth = some e.2 := by
  induction ts generalizing entries with
  | nil =>
    obtain rfl := Option.some.inj read
    contradiction
  | cons first ts ih =>
    obtain ⟨name, -, read⟩ := Option.bind_eq_some_iff.mp read
    obtain ⟨v, value, read⟩ := Option.bind_eq_some_iff.mp read
    obtain ⟨vs, values, read⟩ := Option.bind_eq_some_iff.mp read
    obtain rfl := Option.some.inj read
    rcases List.mem_cons.mp member with rfl | later
    · exact ⟨_, value⟩
    · exact ih values later

theorem ordered_member {text name : String} {members : List (String × Value)}
    (read : (Value.ofText? text).bind (Value.member? name) = some (.object members)) :
    Ordered members := by
  obtain ⟨v, document, found⟩ := Option.bind_eq_some_iff.mp read
  obtain ⟨t, -, value⟩ := Option.bind_eq_some_iff.mp document
  cases v with
  | object outer =>
    obtain ⟨depth, ts, entries, values, rfl⟩ := exists_members value
    obtain ⟨before, after, placed, -⟩ := List.lookup_eq_some_iff.mp found
    have member : (name, Value.object members) ∈ entries := by
      apply mem_of_mem_foldl_insertEntry
      rw [← sortMembers_eq_foldl, placed]
      simp
    obtain ⟨inner, value⟩ := exists_of_memberValues? values member
    exact ordered_of_value? value
  | _ => contradiction

theorem document?_braces {text : String} {cs : List Char}
    (begins : text.toList = '\x7b' :: '\x7b' :: cs) : Grammar.document? (piecesOf text) = none := by
  have pieces : piecesOf text = .char '\x7b' :: .char '\x7b' :: cs.map .char := by
    rw [piecesOf, begins]
    rfl
  rw [Grammar.document?, pieces]
  rfl

end Json

namespace Metadata

open Source (SourceFile SourceUnit tokenize)

theorem unwrapped_of_document {cs : List Char} {t : Tree}
    (document : Json.Grammar.document? (Json.piecesOf (String.ofList cs)) = some t) : unwrapped cs = cs := by
  unfold unwrapped
  refine if_neg fun twice => ?_
  obtain ⟨rest, begins⟩ := List.isPrefixOf_iff_prefix.mp (Bool.and_eq_true_iff.mp twice).1
  rw [Json.document?_braces (String.toList_ofList.trans begins.symm)] at document
  contradiction

theorem unwrapped_wrapped (inside : List Char) :
    unwrapped ('\x7b' :: ('\x7b' :: (inside ++ ['\x7d'])) ++ ['\x7d']) = '\x7b' :: (inside ++ ['\x7d']) := by
  have twice : (['\x7b', '\x7b'].isPrefixOf ('\x7b' :: ('\x7b' :: (inside ++ ['\x7d'])) ++ ['\x7d']) &&
      ['\x7d', '\x7d'].isSuffixOf ('\x7b' :: ('\x7b' :: (inside ++ ['\x7d'])) ++ ['\x7d'])) = true := by
    rw [Bool.and_eq_true]
    exact ⟨rfl, List.isSuffixOf_iff_suffix.mpr ⟨'\x7b' :: '\x7b' :: inside, by simp⟩⟩
  rw [unwrapped, if_pos twice]
  exact List.dropLast_concat

theorem flatSource_congr {before after before' after' inside inside' : List Char}
    (blank : ∀ c ∈ before, Text.isBlank c = true) (blank' : ∀ c ∈ after, Text.isBlank c = true)
    (other : ∀ c ∈ before', Text.isBlank c = true) (other' : ∀ c ∈ after', Text.isBlank c = true)
    (same : unwrapped ('\x7b' :: (inside ++ ['\x7d'])) = unwrapped ('\x7b' :: (inside' ++ ['\x7d']))) :
    flatSource (String.ofList (before ++ '\x7b' :: (inside ++ ['\x7d']) ++ after)) =
      flatSource (String.ofList (before' ++ '\x7b' :: (inside' ++ ['\x7d']) ++ after')) := by
  unfold flatSource
  rw [String.toList_ofList, String.toList_ofList, Text.trim_padded blank blank' (by decide) (by decide),
    Text.trim_padded other other' (by decide) (by decide)]
  simp only [same, List.head?_cons, if_true]

/-- A document of several files, from its opening brace to its closing one. -/
structure MultiFile (document : List Char) (files : List (String × Value)) : Prop where
  opens : document.head? = some '\x7b'
  closes : document.getLast? = some '\x7d'
  sources : (Value.ofText? (String.ofList document)).bind (Value.member? "sources") =
    some (.object files)

/-- How a document of several files is published, between blanks: as it is, or in one more pair of
braces. -/
inductive Published (document : List Char) : List Char → Prop where
  | bare {before after : List Char} (blank : ∀ c ∈ before, Text.isBlank c = true)
    (blank' : ∀ c ∈ after, Text.isBlank c = true) : Published document (before ++ document ++ after)
  | wrapped {before after : List Char} (blank : ∀ c ∈ before, Text.isBlank c = true)
    (blank' : ∀ c ∈ after, Text.isBlank c = true) :
    Published document (before ++ ('\x7b' :: document ++ ['\x7d']) ++ after)

section
variable {document : List Char} {files : List (String × Value)}

theorem multiFile_pretty {members : List (String × Value)} (settled : (Value.object members).Settled)
    (nested : (Value.object members).nest ≤ Json.depthLimit)
    (listed : members.lookup "sources" = some (.object files)) :
    MultiFile (Value.object members).pretty.toList files := by
  have text : ∃ inside, (Value.object members).pretty.toList = '\x7b' :: inside ++ ['\x7d'] := by
    cases members with
    | nil => contradiction
    | cons m ms =>
      refine ⟨(Value.prettyMembers 1 (m :: ms)).toList ++ (Json.newline 0).toList, ?_⟩
      simp [Value.pretty, Value.prettyAt]
  obtain ⟨inside, text⟩ := text
  refine ⟨?_, ?_, ?_⟩
  · rw [text]
    rfl
  · rw [text]
    exact List.getLast?_concat
  · rw [String.ofList_toList, Json.ofText?_pretty settled nested]
    exact listed

theorem MultiFile.text (whole : MultiFile document files) :
    ∃ inside, document = '\x7b' :: (inside ++ ['\x7d']) := by
  obtain ⟨front, ends⟩ := List.getLast?_eq_some_iff.mp whole.closes
  subst ends
  cases front with
  | nil => exact absurd whole.opens (by decide)
  | cons first inside =>
    obtain rfl := Option.some.inj whole.opens
    exact ⟨inside, rfl⟩

theorem MultiFile.unwrapped_eq (whole : MultiFile document files) : unwrapped document = document := by
  obtain ⟨v, read, -⟩ := Option.bind_eq_some_iff.mp whole.sources
  obtain ⟨t, shape, -⟩ := Option.bind_eq_some_iff.mp read
  exact unwrapped_of_document shape

theorem MultiFile.flatSource_eq (whole : MultiFile document files) :
    flatSource (String.ofList document) = .ok (concatenated files) := by
  obtain ⟨inside, rfl⟩ := whole.text
  obtain ⟨v, read, listed⟩ := Option.bind_eq_some_iff.mp whole.sources
  have same := whole.unwrapped_eq
  have trimmed : Text.trim ([] ++ '\x7b' :: (inside ++ ['\x7d']) ++ []) = '\x7b' :: (inside ++ ['\x7d']) :=
    Text.trim_padded nofun nofun (by decide) (by decide)
  rw [List.nil_append, List.append_nil] at trimmed
  unfold flatSource
  rw [String.toList_ofList, trimmed]
  simp only [same, List.head?_cons, if_true, read, listed, Option.bind_some, Value.members?]

theorem flatSource_published {source : List Char} (whole : MultiFile document files)
    (published : Published document source) :
    flatSource (String.ofList source) = .ok (concatenated files) := by
  rw [← whole.flatSource_eq]
  have same := whole.unwrapped_eq
  obtain ⟨inside, rfl⟩ := whole.text
  have own : '\x7b' :: (inside ++ ['\x7d']) = [] ++ '\x7b' :: (inside ++ ['\x7d']) ++ [] := by simp
  rw [own]
  cases published with
  | bare blank blank' => exact flatSource_congr blank blank' nofun nofun rfl
  | wrapped blank blank' =>
    refine flatSource_congr blank blank' nofun nofun ?_
    exact (unwrapped_wrapped inside).trans same.symm

theorem toList_concatenated {read : List SourceFile}
    (contents : (files.map fun f => content? f.2) = read.map fun f => some f.content) :
    (concatenated files).toList = read.flatMap SourceFile.lines := by
  have found : (files.filterMap fun f => content? f.2) = read.map SourceFile.content := by
    have mapped := congrArg (List.filterMap id) contents
    rw [List.filterMap_map, List.filterMap_map] at mapped
    exact mapped.trans (congrFun List.filterMap_eq_map read)
  rw [concatenated, found, String.toList_join, List.flatMap_map, List.flatMap_map]
  exact congrArg (read.flatMap ·) (funext fun f => String.toList_append)

/-- The text of a document of several files has their tokens, one file after the other, and declares
what they declare. -/
theorem flatSource_faithful {source : List Char} (whole : MultiFile document files)
    (published : Published document source) {read : List SourceFile}
    (contents : (files.map fun f => content? f.2) = read.map fun f => some f.content) :
    Ordered files ∧ ∃ flat, flatSource (String.ofList source) = .ok flat ∧
      tokenize flat.toList = .ok (SourceFile.tokensBelow 0 read) ∧
      SourceUnit.ofTokens (SourceFile.tokensBelow 0 read) =
        .ok (SourceFile.declaredBelow 0 read) := by
  refine ⟨Json.ordered_member whole.sources, _, flatSource_published whole published, ?_,
    SourceFile.ofTokens_tokensBelow 0 read⟩
  rw [toList_concatenated contents]
  exact SourceFile.tokenize_files read

end

/-- Two files, the first of which ends within a comment. -/
def twoFiles : List (String × Value) :=
  [("A.sol", .object [("content", .string "struct P \x7b uint a; \x7d // last")]),
    ("B.sol", .object [("content", .string "contract B \x7b P p; \x7d")])]

def twoFileText : List Char :=
  (Value.object [("sources", .object twoFiles)]).pretty.toList

theorem settled_twoFiles : (Value.object [("sources", .object twoFiles)]).Settled := by
  have file (content : String) : (Value.object [("content", .string content)]).Settled :=
    .object _ (List.forall_mem_singleton.mpr (.string content)) (List.pairwise_singleton _ _)
  have files : (Value.object twoFiles).Settled := by
    refine .object _ ?_ (List.pairwise_pair.mpr (by decide))
    exact List.forall_mem_cons.mpr ⟨file _, List.forall_mem_singleton.mpr (file _)⟩
  exact .object _ (List.forall_mem_singleton.mpr files) (List.pairwise_singleton _ _)

theorem multiFile_twoFiles : MultiFile twoFileText twoFiles :=
  multiFile_pretty settled_twoFiles (by decide) rfl

theorem flatSource_faithful_twoFiles :
    ∃ read : List SourceFile,
      (twoFiles.map fun f => content? f.2) = (read.map fun f => some f.content) ∧
        Ordered twoFiles ∧
          ∃ flat, flatSource (String.ofList ('\x7b' :: twoFileText ++ ['\x7d'])) = .ok flat ∧
            tokenize flat.toList = .ok (SourceFile.tokensBelow 0 read) ∧
            SourceUnit.ofTokens (SourceFile.tokensBelow 0 read) =
              .ok (SourceFile.declaredBelow 0 read) := by
  obtain ⟨a, contentA⟩ :=
    SourceFile.exists_of_readable "struct P \x7b uint a; \x7d // last" (by decide +kernel)
  obtain ⟨b, contentB⟩ :=
    SourceFile.exists_of_readable "contract B \x7b P p; \x7d" (by decide +kernel)
  have contents : (twoFiles.map fun f => content? f.2) = [a, b].map fun f => some f.content := by
    simp only [List.map_cons, List.map_nil, contentA, contentB]
    rfl
  have none : ∀ c ∈ [], Text.isBlank c = true := fun _ member => absurd member List.not_mem_nil
  have published : Published twoFileText ('\x7b' :: twoFileText ++ ['\x7d']) := by
    have padded : Published twoFileText ([] ++ ('\x7b' :: twoFileText ++ ['\x7d']) ++ []) :=
      .wrapped none none
    rwa [List.append_nil] at padded
  exact ⟨_, contents, flatSource_faithful multiFile_twoFiles published contents⟩

end Metadata

end ContractRegistry
