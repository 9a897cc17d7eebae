import ContractRegistry.Proofs.Elementary
import ContractRegistry.Proofs.Layout.DataSlot
import ContractRegistry.Source.Token

/-!
Signatures are read in one way only.

A signature begins with a word or with a bracket, and the word tells what it is: the name of a built-in
type, a mapping, or a struct by its name. What is read ends where the text goes on with neither a word nor
another bracket of an array. So types with one signature match part by part, and where both have a struct
it is the same one, or the members of the two match in turn.
-/
namespace ContractRegistry

open Source (isWordStart isWordChar)

def Halts (p : Char → Bool) (rest : List Char) : Prop :=
  ∀ c, rest.head? = some c → p c = false

theorem halts_nil (p : Char → Bool) : Halts p [] := by
  intro c none
  contradiction

theorem halts_cons {p : Char → Bool} {c : Char} (stop : p c = false) (rest : List Char) :
    Halts p (c :: rest) := by
  intro d head
  obtain rfl := Option.some.inj head
  exact stop

theorem run_eq {p : Char → Bool} {u v rest more : List Char} (first : ∀ c ∈ u, p c = true)
    (second : ∀ c ∈ v, p c = true) (halts : Halts p rest) (halts' : Halts p more)
    (same : u ++ rest = v ++ more) : u = v ∧ rest = more := by
  induction u generalizing v with
  | nil =>
    cases v with
    | nil => exact ⟨rfl, same⟩
    | cons d v =>
      have stop := halts d (congrArg List.head? same)
      rw [second d List.mem_cons_self] at stop
      contradiction
  | cons c u ih =>
    cases v with
    | nil =>
      have stop := halts' c (congrArg List.head? same).symm
      rw [first c List.mem_cons_self] at stop
      contradiction
    | cons d v =>
      obtain ⟨rfl, onward⟩ := List.cons.inj same
      obtain ⟨rfl, rest⟩ := ih (fun e member => first e (List.mem_cons_of_mem _ member))
        (fun e member => second e (List.mem_cons_of_mem _ member)) onward
      exact ⟨rfl, rest⟩

theorem isWordChar_of_isDigit {c : Char} (digit : c.isDigit = true) : isWordChar c = true := by
  simp [isWordChar, Source.isDigit, Numeral.bounds_of_isDigit c digit]

namespace Elementary

theorem letters_worded (kind : Elementary) : ∀ c ∈ kind.letters, isWordChar c = true := by
  cases kind <;> exact List.all_eq_true.mp rfl

theorem letters_plain (kind : Elementary) : ∀ c ∈ kind.letters, (!c.isDigit) = true := by
  cases kind <;> exact List.all_eq_true.mp rfl

theorem eq_of_parts {a b : Elementary} (letters : a.letters = b.letters) (width : a.width = b.width) :
    a = b := by
  cases a <;> cases b <;> simp_all [Elementary.letters, Elementary.width]

theorem name_worded (kind : Elementary) : ∀ c ∈ kind.name.toList, isWordChar c = true := by
  intro c member
  rw [name_toList] at member
  rcases List.mem_append.mp member with letter | digit
  · exact kind.letters_worded c letter
  · exact isWordChar_of_isDigit (isDigit_optionalDigits c digit)

theorem halts_width (kind : Elementary) : Halts (fun c => !c.isDigit) (optionalDigits kind.width) := by
  intro c head
  have digit := isDigit_optionalDigits c (List.mem_of_mem_head? head)
  simp [digit]

theorem name_injective {a b : Elementary} (same : a.name.toList = b.name.toList) : a = b := by
  rw [name_toList, name_toList] at same
  obtain ⟨first, second⟩ := run_eq a.letters_plain b.letters_plain a.halts_width b.halts_width same
  exact eq_of_parts first (optionalDigits_injective second)

theorem name_ne_word {word : List Char} (plain : ∀ c ∈ word, (!c.isDigit) = true) {kind : Elementary}
    (other : kind.letters ≠ word) : kind.name.toList ≠ word := by
  intro same
  rw [name_toList, ← List.append_nil word] at same
  exact other (run_eq kind.letters_plain plain kind.halts_width (halts_nil _) same).1

theorem name_ne_mapping (kind : Elementary) : kind.name.toList ≠ "mapping".toList := by
  apply name_ne_word (List.all_eq_true.mp rfl)
  cases kind <;> simp [letters]

theorem name_ne_struct (kind : Elementary) : kind.name.toList ≠ "struct".toList := by
  apply name_ne_word (List.all_eq_true.mp rfl)
  cases kind <;> simp [letters]

theorem name_ne_nil (kind : Elementary) : kind.name.toList ≠ [] := by
  apply name_ne_word (List.all_eq_true.mp rfl)
  cases kind <;> simp [letters]

end Elementary

namespace TypeRef

def brackets : TypeRef → List (Option Nat)
  | .fixedArray element length => element.brackets ++ [some length]
  | .dynamicArray element => element.brackets ++ [none]
  | _ => []

end TypeRef

def bracketText (length : Option Nat) : List Char :=
  '[' :: optionalDigits length ++ [']']

theorem text_toList (struct : String → String) (ty : TypeRef) :
    (ty.text struct).toList = (ty.bottom.text struct).toList ++ ty.brackets.flatMap bracketText := by
  induction ty with
  | elementary kind => simp [TypeRef.bottom, TypeRef.brackets]
  | struct name => simp [TypeRef.bottom, TypeRef.brackets]
  | mapping key value _ _ => simp [TypeRef.bottom, TypeRef.brackets]
  | dynamicArray element ih =>
    simp only [TypeRef.text, TypeRef.bottom, TypeRef.brackets, String.toList_append, ih,
      List.flatMap_append, List.append_assoc]
    rfl
  | fixedArray element length ih =>
    simp only [TypeRef.text, TypeRef.bottom, TypeRef.brackets, String.toList_append, ih,
      List.flatMap_append, List.append_assoc]
    simp [bracketText, optionalDigits]

theorem bracket_eq {m n : Option Nat} {rest more : List Char}
    (same : bracketText m ++ rest = bracketText n ++ more) : m = n ∧ rest = more := by
  simp only [bracketText, List.cons_append, List.append_assoc] at same
  have inside := (List.cons.inj same).2
  have stop : ']'.isDigit = false := by decide
  obtain ⟨digits, behind⟩ := run_eq isDigit_optionalDigits isDigit_optionalDigits
    (halts_cons stop rest) (halts_cons stop more) inside
  exact ⟨optionalDigits_injective digits, (List.cons.inj behind).2⟩

theorem brackets_eq {ms ns : List (Option Nat)} {rest more : List Char} (closed : rest.head? ≠ some '[')
    (closed' : more.head? ≠ some '[')
    (same : ms.flatMap bracketText ++ rest = ns.flatMap bracketText ++ more) :
    ms = ns ∧ rest = more := by
  induction ms generalizing ns with
  | nil =>
    cases ns with
    | nil => exact ⟨rfl, same⟩
    | cons n ns => exact absurd (congrArg List.head? same) closed
  | cons m ms ih =>
    cases ns with
    | nil => exact absurd (congrArg List.head? same).symm closed'
    | cons n ns =>
      simp only [List.flatMap_cons, List.append_assoc] at same
      obtain ⟨rfl, onward⟩ := bracket_eq same
      obtain ⟨rfl, behind⟩ := ih onward
      exact ⟨rfl, behind⟩

namespace TypeRef

/-- Two types are the same but for their structs, and those are related one by one. -/
inductive Matches (same : String → String → Prop) : TypeRef → TypeRef → Prop where
  | elementary (kind : Elementary) : Matches same (.elementary kind) (.elementary kind)
  | fixedArray {a b : TypeRef} (length : Nat) (elements : Matches same a b) :
      Matches same (.fixedArray a length) (.fixedArray b length)
  | dynamicArray {a b : TypeRef} (elements : Matches same a b) :
      Matches same (.dynamicArray a) (.dynamicArray b)
  | mapping {k l v w : TypeRef} (keys : Matches same k l) (values : Matches same v w) :
      Matches same (.mapping k v) (.mapping l w)
  | struct {x y : String} (structs : same x y) : Matches same (.struct x) (.struct y)

variable {same : String → String → Prop}

theorem Matches.refl (reflexive : ∀ x, same x x) (ty : TypeRef) : ty.Matches same ty := by
  induction ty with
  | elementary kind => exact .elementary kind
  | fixedArray element length ih => exact .fixedArray length ih
  | dynamicArray element ih => exact .dynamicArray ih
  | mapping key value ihk ihv => exact .mapping ihk ihv
  | struct name => exact .struct (reflexive name)

theorem brackets_bottom (ty : TypeRef) : ty.bottom.brackets = [] := by
  induction ty with
  | fixedArray element length ih => exact ih
  | dynamicArray element ih => exact ih
  | _ => rfl

theorem bottom_of_brackets {ty : TypeRef} (flat : ty.brackets = []) : ty.bottom = ty := by
  cases ty with
  | fixedArray element length => simp [brackets] at flat
  | dynamicArray element => simp [brackets] at flat
  | _ => rfl

theorem mentions_of_bottom {ty : TypeRef} {name : String} (inside : ty.bottom.Mentions name) :
    ty.Mentions name := by
  induction ty with
  | fixedArray element length ih => exact .fixedElement length (ih inside)
  | dynamicArray element ih => exact .dynamicElement (ih inside)
  | _ => exact inside

theorem matches_of_bottom {a b : TypeRef} (under : a.bottom.Matches same b.bottom)
    (around : a.brackets = b.brackets) : a.Matches same b := by
  induction a generalizing b with
  | fixedArray element length ih =>
    cases b with
    | fixedArray other n =>
      obtain ⟨inner, outer⟩ := List.append_inj' around rfl
      obtain rfl : length = n := by simpa using outer
      exact .fixedArray length (ih under inner)
    | dynamicArray other =>
      have outer := (List.append_inj' around rfl).2
      simp at outer
    | _ => simp [brackets] at around
  | dynamicArray element ih =>
    cases b with
    | dynamicArray other => exact .dynamicArray (ih under (List.append_inj' around rfl).1)
    | fixedArray other n =>
      have outer := (List.append_inj' around rfl).2
      simp at outer
    | _ => simp [brackets] at around
  | _ =>
    rw [bottom_of_brackets around.symm] at under
    exact under

end TypeRef

/-- The text of a struct is a tuple, or its name behind a word of its own. -/
def StructLike (text : List Char) : Prop :=
  (∃ rest, text = '(' :: rest) ∨ ∃ rest, text = "struct ".toList ++ rest

theorem word_ne_structLike {word text rest more : List Char} (worded : ∀ c ∈ word, isWordChar c = true)
    (halts : Halts isWordChar rest) (some_word : word ≠ []) (other : word ≠ "struct".toList)
    (struct : StructLike text) : word ++ rest ≠ text ++ more := by
  intro same
  rcases struct with ⟨inside, rfl⟩ | ⟨name, rfl⟩
  · have opening : Halts isWordChar ('(' :: (inside ++ more)) := halts_cons (by decide) _
    exact some_word (run_eq (v := []) worded (by simp) halts opening same).1
  · have blank : Halts isWordChar (' ' :: (name ++ more)) := halts_cons (by decide) _
    exact other (run_eq worded (List.all_eq_true.mp rfl) halts blank same).1

/-- Structs are written in two ways such that equal texts are those of structs that are the same. -/
structure Readable (first second : String → String) (known : String → Prop)
    (same : String → String → Prop) : Prop where
  left : ∀ name, StructLike (first name).toList
  right : ∀ name, StructLike (second name).toList
  structs : ∀ x y rest more, known x → known y → Halts isWordChar rest → Halts isWordChar more →
    (first x).toList ++ rest = (second y).toList ++ more → same x y ∧ rest = more

namespace Readable
variable {first second : String → String} {known : String → Prop} {same : String → String → Prop}

def Closed (rest : List Char) : Prop :=
  Halts isWordChar rest ∧ rest.head? ≠ some '['

theorem closed_cons {c : Char} (stop : isWordChar c = false) (other : c ≠ '[') (rest : List Char) :
    Closed (c :: rest) :=
  ⟨halts_cons stop rest, fun head => other (Option.some.inj head)⟩

def ReadsBottom (first second : String → String) (known : String → Prop)
    (same : String → String → Prop) (a : TypeRef) : Prop :=
  ∀ b rest more, (∀ name, a.Mentions name → known name) → (∀ name, b.Mentions name → known name) →
    b.brackets = [] → Halts isWordChar rest → Halts isWordChar more →
    (a.bottom.text first).toList ++ rest = (b.text second).toList ++ more →
    a.bottom.Matches same b ∧ rest = more

theorem halts_brackets {ns : List (Option Nat)} {rest : List Char} (halts : Halts isWordChar rest) :
    Halts isWordChar (ns.flatMap bracketText ++ rest) := by
  cases ns with
  | nil => exact halts
  | cons n ns => exact halts_cons (by decide) _

theorem reads_of_bottom {a : TypeRef} (under : ReadsBottom first second known same a) {b : TypeRef}
    {rest more : List Char} (knownA : ∀ name, a.Mentions name → known name)
    (knownB : ∀ name, b.Mentions name → known name) (closed : Closed rest) (closed' : Closed more)
    (eq : (a.text first).toList ++ rest = (b.text second).toList ++ more) :
    a.Matches same b ∧ rest = more := by
  rw [text_toList first a, text_toList second b, List.append_assoc, List.append_assoc] at eq
  obtain ⟨bottoms, behind⟩ := under b.bottom _ _ knownA
    (fun name inside => knownB name (TypeRef.mentions_of_bottom inside)) b.brackets_bottom
    (halts_brackets closed.1) (halts_brackets closed'.1) eq
  obtain ⟨around, rest⟩ := brackets_eq closed.2 closed'.2 behind
  exact ⟨TypeRef.matches_of_bottom bottoms around, rest⟩

theorem mapping_toList (struct : String → String) (key value : TypeRef) (rest : List Char) :
    ((TypeRef.mapping key value).text struct).toList ++ rest =
      "mapping".toList ++ '(' :: ((key.text struct).toList ++
        '=' :: '>' :: ((value.text struct).toList ++ ')' :: rest)) := by
  simp [TypeRef.text]

theorem mapping_worded : ∀ c ∈ "mapping".toList, isWordChar c = true :=
  List.all_eq_true.mp rfl

theorem readsBottom (readable : Readable first second known same) (a : TypeRef) :
    ReadsBottom first second known same a := by
  have opening (rest : List Char) : Halts isWordChar ('(' :: rest) := halts_cons (by decide) rest
  induction a with
  -- The bottom of an array is that of its elements. Its brackets come behind both texts.
  | fixedArray element length ih =>
    intro b rest more knownA
    exact ih b rest more fun name inside => knownA name (.fixedElement length inside)
  | dynamicArray element ih =>
    intro b rest more knownA
    exact ih b rest more fun name inside => knownA name (.dynamicElement inside)
  | elementary kind =>
    intro b rest more knownA knownB flat halts halts' eq
    cases b with
    | elementary other =>
      obtain ⟨names, behind⟩ := run_eq kind.name_worded other.name_worded halts halts' eq
      obtain rfl := Elementary.name_injective names
      exact ⟨.elementary kind, behind⟩
    | mapping key value =>
      rw [mapping_toList] at eq
      exact absurd (run_eq kind.name_worded mapping_worded halts (opening _) eq).1 kind.name_ne_mapping
    | struct name =>
      exact absurd eq (word_ne_structLike kind.name_worded halts kind.name_ne_nil kind.name_ne_struct
        (readable.right name))
    | fixedArray element length => simp [TypeRef.brackets] at flat
    | dynamicArray element => simp [TypeRef.brackets] at flat
  | mapping key value ihk ihv =>
    intro b rest more knownA knownB flat halts halts' eq
    rw [TypeRef.bottom_of_brackets rfl, mapping_toList] at eq
    cases b with
    | elementary kind =>
      exact absurd (run_eq mapping_worded kind.name_worded (opening _) halts' eq).1.symm
        kind.name_ne_mapping
    | mapping key' value' =>
      rw [mapping_toList] at eq
      have inside := (List.cons.inj (List.append_cancel_left eq)).2
      obtain ⟨keys, onward⟩ := reads_of_bottom ihk
        (fun name inside => knownA name (.key value inside))
        (fun name inside => knownB name (.key value' inside)) (closed_cons (by decide) (by decide) _)
        (closed_cons (by decide) (by decide) _) inside
      have arrow := (List.cons.inj (List.cons.inj onward).2).2
      obtain ⟨values, behind⟩ := reads_of_bottom ihv
        (fun name inside => knownA name (.value key inside))
        (fun name inside => knownB name (.value key' inside)) (closed_cons (by decide) (by decide) _)
        (closed_cons (by decide) (by decide) _) arrow
      exact ⟨.mapping keys values, (List.cons.inj behind).2⟩
    | struct name =>
      exact absurd eq (word_ne_structLike mapping_worded (opening _) (by decide) (by decide)
        (readable.right name))
    | fixedArray element length => simp [TypeRef.brackets] at flat
    | dynamicArray element => simp [TypeRef.brackets] at flat
  | struct name =>
    intro b rest more knownA knownB flat halts halts' eq
    cases b with
    | elementary kind =>
      exact absurd eq.symm (word_ne_structLike kind.name_worded halts' kind.name_ne_nil
        kind.name_ne_struct (readable.left name))
    | mapping key value =>
      rw [mapping_toList] at eq
      exact absurd eq.symm (word_ne_structLike mapping_worded (opening _) (by decide) (by decide)
        (readable.left name))
    | struct other =>
      obtain ⟨structs, behind⟩ := readable.structs name other rest more
        (knownA name (.struct name)) (knownB other (.struct other)) halts halts' eq
      exact ⟨.struct structs, behind⟩
    | fixedArray element length => simp [TypeRef.brackets] at flat
    | dynamicArray element => simp [TypeRef.brackets] at flat

theorem reads (readable : Readable first second known same) {a b : TypeRef} {rest more : List Char}
    (knownA : ∀ name, a.Mentions name → known name) (knownB : ∀ name, b.Mentions name → known name)
    (closed : Closed rest) (closed' : Closed more)
    (eq : (a.text first).toList ++ rest = (b.text second).toList ++ more) :
    a.Matches same b ∧ rest = more :=
  reads_of_bottom (readable.readsBottom a) knownA knownB closed closed' eq

def listed (struct : String → String) (fields : List Field) : List Char :=
  fields.flatMap fun f => ',' :: (f.ty.text struct).toList

theorem closed_listed (struct : String → String) (fields : List Field) (rest : List Char) :
    Closed (listed struct fields ++ ')' :: rest) := by
  cases fields with
  | nil => exact closed_cons (by decide) (by decide) rest
  | cons f fs => exact closed_cons (by decide) (by decide) _

theorem reads_listed (readable : Readable first second known same) {fs gs : List Field}
    {rest more : List Char} (knownF : ∀ f ∈ fs, ∀ name, f.ty.Mentions name → known name)
    (knownG : ∀ g ∈ gs, ∀ name, g.ty.Mentions name → known name)
    (eq : listed first fs ++ ')' :: rest = listed second gs ++ ')' :: more) :
    List.Forall₂ (fun f g => f.ty.Matches same g.ty) fs gs ∧ rest = more := by
  induction fs generalizing gs with
  | nil =>
    cases gs with
    | nil => exact ⟨.nil, (List.cons.inj eq).2⟩
    | cons g gs => exact absurd (List.cons.inj eq).1 (by decide)
  | cons f fs ih =>
    cases gs with
    | nil => exact absurd (List.cons.inj eq).1 (by decide)
    | cons g gs =>
      obtain ⟨here, others⟩ := List.forall_mem_cons.mp knownF
      obtain ⟨here', others'⟩ := List.forall_mem_cons.mp knownG
      simp only [listed, List.flatMap_cons, List.cons_append, List.append_assoc] at eq
      obtain ⟨member, onward⟩ := readable.reads here here' (closed_listed first fs rest)
        (closed_listed second gs more) (List.cons.inj eq).2
      obtain ⟨members, behind⟩ := ih others others' onward
      exact ⟨.cons member members, behind⟩

def tupleText (struct : String → String) (fields : List Field) : String :=
  "(" ++ ",".intercalate (fields.map fun f => f.ty.text struct) ++ ")"

theorem intercalate_toList (struct : String → String) (f : Field) (fs : List Field) :
    (",".intercalate ((f :: fs).map fun f => f.ty.text struct)).toList =
      (f.ty.text struct).toList ++ listed struct fs := by
  induction fs generalizing f with
  | nil => simp [listed]
  | cons g fs ih =>
    have onward := ih g
    rw [List.map_cons] at onward
    rw [List.map_cons, List.map_cons, String.intercalate_cons_cons, String.toList_append,
      String.toList_append, onward]
    simp [listed]

theorem tupleText_nil (struct : String → String) (rest : List Char) :
    (tupleText struct []).toList ++ rest = '(' :: ')' :: rest := by
  simp [tupleText]

theorem tupleText_cons (struct : String → String) (f : Field) (fs : List Field) (rest : List Char) :
    (tupleText struct (f :: fs)).toList ++ rest =
      '(' :: ((f.ty.text struct).toList ++ (listed struct fs ++ ')' :: rest)) := by
  rw [tupleText, String.toList_append, String.toList_append, intercalate_toList]
  simp

theorem text_opens {struct : String → String} (structs : ∀ name, StructLike (struct name).toList)
    (ty : TypeRef) : ∃ c cs, (ty.text struct).toList = c :: cs ∧ c ≠ ')' := by
  induction ty with
  | elementary kind =>
    cases letters : kind.name.toList with
    | nil => exact absurd letters kind.name_ne_nil
    | cons c cs =>
      refine ⟨c, cs, letters, ?_⟩
      rintro rfl
      have worded := kind.name_worded ')' (letters ▸ List.mem_cons_self)
      exact absurd worded (by decide)
  | struct name =>
    rcases structs name with ⟨inside, begins⟩ | ⟨word, begins⟩
    · exact ⟨'(', inside, begins, by decide⟩
    · exact ⟨'s', _, begins, by decide⟩
  | mapping key value _ _ =>
    have begins := mapping_toList struct key value []
    rw [List.append_nil] at begins
    exact ⟨'m', _, begins, by decide⟩
  | fixedArray element length ih =>
    obtain ⟨c, cs, begins, other⟩ := ih
    exact ⟨c, cs ++ ("[" ++ toString length ++ "]").toList, by simp [TypeRef.text, begins], other⟩
  | dynamicArray element ih =>
    obtain ⟨c, cs, begins, other⟩ := ih
    exact ⟨c, cs ++ "[]".toList, by simp [TypeRef.text, begins], other⟩

theorem text_ne_closing {struct : String → String} (structs : ∀ name, StructLike (struct name).toList)
    (ty : TypeRef) (rest more : List Char) : (ty.text struct).toList ++ rest ≠ ')' :: more := by
  intro eq
  obtain ⟨c, cs, begins, other⟩ := text_opens structs ty
  rw [begins] at eq
  exact other (List.cons.inj eq).1

theorem reads_tuple (readable : Readable first second known same) {fs gs : List Field}
    {rest more : List Char} (knownF : ∀ f ∈ fs, ∀ name, f.ty.Mentions name → known name)
    (knownG : ∀ g ∈ gs, ∀ name, g.ty.Mentions name → known name)
    (eq : (tupleText first fs).toList ++ rest = (tupleText second gs).toList ++ more) :
    List.Forall₂ (fun f g => f.ty.Matches same g.ty) fs gs ∧ rest = more := by
  cases fs with
  | nil =>
    rw [tupleText_nil] at eq
    cases gs with
    | nil =>
      rw [tupleText_nil] at eq
      exact ⟨.nil, (List.cons.inj (List.cons.inj eq).2).2⟩
    | cons g gs =>
      rw [tupleText_cons] at eq
      exact absurd (List.cons.inj eq).2.symm (text_ne_closing readable.right g.ty _ _)
  | cons f fs =>
    rw [tupleText_cons] at eq
    cases gs with
    | nil =>
      rw [tupleText_nil] at eq
      exact absurd (List.cons.inj eq).2 (text_ne_closing readable.left f.ty _ _)
    | cons g gs =>
      rw [tupleText_cons] at eq
      obtain ⟨here, others⟩ := List.forall_mem_cons.mp knownF
      obtain ⟨here', others'⟩ := List.forall_mem_cons.mp knownG
      obtain ⟨member, onward⟩ := readable.reads here here' (closed_listed first fs rest)
        (closed_listed second gs more) (List.cons.inj eq).2
      obtain ⟨members, behind⟩ := readable.reads_listed others others' onward
      exact ⟨.cons member members, behind⟩

end Readable

def Identifier (name : String) : Prop :=
  (∃ c, name.toList.head? = some c ∧ isWordStart c = true) ∧ ∀ c ∈ name.toList, isWordChar c = true

namespace Catalog

/-- Two structs are written alike, down to some depth: they are one struct, or their members match. -/
def Twins (c : Catalog) : Nat → String → String → Prop
  | 0, x, y => x = y
  | depth + 1, x, y => x = y ∨ ∃ d e, c.struct? x = some d ∧ c.struct? y = some e ∧
    List.Forall₂ (fun f g => f.ty.Matches (c.Twins depth) g.ty) d.fields e.fields

variable {c : Catalog}

theorem Twins.refl (depth : Nat) (x : String) : c.Twins depth x x := by
  cases depth with
  | zero => exact rfl
  | succ depth => exact .inl rfl

theorem structText_registered {name : String} (registered : c.Registered name) (depth : Nat)
    (opened : List String) :
    c.structText (depth + 1) opened name = structByName name ∨ ∃ d, c.struct? name = some d ∧
      c.structText (depth + 1) opened name =
        Readable.tupleText (c.structText depth (name :: opened)) d.fields := by
  obtain ⟨d, found⟩ := Option.isSome_iff_exists.mp (hasStruct_iff.mpr registered)
  rw [structText, found]
  by_cases again : name ∈ opened
  · exact .inl (if_pos again)
  · exact .inr ⟨d, rfl, if_neg again⟩

theorem structLike_byName (name : String) : StructLike (structByName name).toList :=
  .inr ⟨name.toList, String.toList_append⟩

theorem structLike_structText (depth : Nat) (opened : List String) (name : String) :
    StructLike (c.structText depth opened name).toList := by
  cases depth with
  | zero => exact structLike_byName name
  | succ depth =>
    rw [structText]
    split
    · split
      · exact structLike_byName name
      · exact .inl ⟨_, by simp only [String.toList_append]; rfl⟩
    · exact structLike_byName name

theorem byName_reads {x y : String} {rest more : List Char} (first : Identifier x) (second : Identifier y)
    (halts : Halts isWordChar rest) (halts' : Halts isWordChar more)
    (eq : (structByName x).toList ++ rest = (structByName y).toList ++ more) : x = y ∧ rest = more := by
  simp only [structByName, String.toList_append, List.append_assoc] at eq
  obtain ⟨names, behind⟩ := run_eq first.2 second.2 halts halts' (List.append_cancel_left eq)
  exact ⟨String.toList_inj.mp names, behind⟩

theorem byName_ne_tuple (x : String) (struct : String → String) (fields : List Field)
    (rest more : List Char) :
    (structByName x).toList ++ rest ≠ (Readable.tupleText struct fields).toList ++ more := by
  intro eq
  simp only [structByName, Readable.tupleText, String.toList_append, List.append_assoc] at eq
  exact absurd (List.cons.inj eq).1 (by decide)

section
variable (names : ∀ d ∈ c.structs, Identifier d.name)
  (members : ∀ d ∈ c.structs, ∀ f ∈ d.fields, ∀ name, f.ty.Mentions name → c.Registered name)
include names members

theorem structText_readable (depth : Nat) (opened opened' : List String) :
    Readable (c.structText depth opened) (c.structText depth opened') c.Registered (c.Twins depth) := by
  have identifier : ∀ x, c.Registered x → Identifier x := by
    rintro _ ⟨d, member, rfl⟩
    exact names d member
  refine ⟨structLike_structText depth opened, structLike_structText depth opened', ?_⟩
  induction depth generalizing opened opened' with
  | zero =>
    intro x y rest more first second halts halts' eq
    exact byName_reads (identifier x first) (identifier y second) halts halts' eq
  | succ depth ih =>
    intro x y rest more first second halts halts' eq
    -- Each is written by its name or as a tuple, and the first character tells which.
    rcases structText_registered first depth opened with here | ⟨d, found, here⟩
    · rcases structText_registered second depth opened' with there | ⟨e, found', there⟩
      · rw [here, there] at eq
        obtain ⟨same, behind⟩ :=
          byName_reads (identifier x first) (identifier y second) halts halts' eq
        exact ⟨.inl same, behind⟩
      · rw [here, there] at eq
        exact absurd eq (byName_ne_tuple x _ _ rest more)
    · rcases structText_registered second depth opened' with there | ⟨e, found', there⟩
      · rw [here, there] at eq
        exact absurd eq.symm (byName_ne_tuple y _ _ more rest)
      · rw [here, there] at eq
        have inside : Readable (c.structText depth (x :: opened)) (c.structText depth (y :: opened'))
            c.Registered (c.Twins depth) :=
          ⟨structLike_structText depth _, structLike_structText depth _, ih _ _⟩
        obtain ⟨fields, behind⟩ := inside.reads_tuple (members d (struct?_mem found))
          (members e (struct?_mem found')) eq
        exact ⟨.inr ⟨d, e, found, found', fields⟩, behind⟩

theorem matches_of_signature {t u : TypeRef} (first : c.check t = .ok ()) (second : c.check u = .ok ())
    (same : c.signature t = c.signature u) : t.Matches (c.Twins c.structs.length) u := by
  have readable := structText_readable names members c.structs.length [] []
  have texts := congrArg String.toList same
  rw [← List.append_nil (c.signature t).toList, ← List.append_nil (c.signature u).toList] at texts
  have closed : Readable.Closed [] := ⟨halts_nil _, by simp⟩
  exact (readable.reads (check_eq_ok.mp first) (check_eq_ok.mp second) closed closed texts).1

end

end Catalog

end ContractRegistry
