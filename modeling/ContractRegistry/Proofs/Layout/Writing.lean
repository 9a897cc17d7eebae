import ContractRegistry.Proofs.Layout.Depth
import Mathlib.Data.List.Count
import Mathlib.Logic.Relation

/-!
How a signature is written.

A signature is written from left to right. A struct is opened when its tuple is begun and closed when the
tuple ends, and one that is met while it is open, or that is not registered, is written by its name. So the
open structs are all different and registered, whatever the catalog: there are never more tuples open than
structs, and writing ends. What is open before a type is open behind it, so the next member of a tuple is
written as the first one is.
-/
namespace ContractRegistry

/-- What is left to write: a type, a text, or the end of the tuple that was begun last. -/
inductive Passage where
  | type (ty : TypeRef)
  | text (t : String)
  | ending
deriving DecidableEq

/-- The members of a struct with commas between them, and the end of the tuple. -/
def Passage.members (fields : List Field) : List Passage :=
  (fields.map fun f => Passage.type f.ty).intersperse (.text ",") ++ [.ending]

/-- A moment of writing: what is left to write, the structs that are open, innermost first, and what is
written already. -/
structure Moment where
  todo : List Passage
  opened : List String
  written : String

@[simp]
theorem Passage.members_singleton (f : Field) : Passage.members [f] = [.type f.ty, .ending] := rfl

@[simp]
theorem Passage.members_cons_cons (f g : Field) (fs : List Field) :
    Passage.members (f :: g :: fs) = .type f.ty :: .text "," :: Passage.members (g :: fs) := rfl

namespace Moment

def first (ty : TypeRef) : Moment := ⟨[.type ty], [], ""⟩

def tuples (m : Moment) : Nat := m.todo.count .ending

/-- The next moment. There is none when nothing is left to write. -/
def next? (c : Catalog) : Moment → Option Moment
  | ⟨[], _, _⟩ => none
  | ⟨.text t :: todo, opened, written⟩ => some ⟨todo, opened, written ++ t⟩
  | ⟨.ending :: todo, opened, written⟩ => some ⟨todo, opened.tail, written ++ ")"⟩
  | ⟨.type (.elementary kind) :: todo, opened, written⟩ => some ⟨todo, opened, written ++ kind.name⟩
  | ⟨.type (.fixedArray element length) :: todo, opened, written⟩ =>
    some ⟨.type element :: .text ("[" ++ toString length ++ "]") :: todo, opened, written⟩
  | ⟨.type (.dynamicArray element) :: todo, opened, written⟩ =>
    some ⟨.type element :: .text "[]" :: todo, opened, written⟩
  | ⟨.type (.mapping key value) :: todo, opened, written⟩ =>
    some ⟨.type key :: .text "=>" :: .type value :: .text ")" :: todo, opened, written ++ "mapping("⟩
  | ⟨.type (.struct name) :: todo, opened, written⟩ =>
    match c.struct? name with
    | some d =>
      if name ∈ opened then some ⟨todo, opened, written ++ structByName name⟩
      else some ⟨Passage.members d.fields ++ todo, name :: opened, written ++ "("⟩
    | none => some ⟨todo, opened, written ++ structByName name⟩

end Moment

namespace Catalog

open Moment Readable

def Step (c : Catalog) (now next : Moment) : Prop :=
  now.next? c = some next

abbrev Writes (c : Catalog) : Moment → Moment → Prop :=
  Relation.ReflTransGen c.Step

variable {c : Catalog} {m n : Moment} {opened : List String} {todo : List Passage} {written name : String}

/-- The open structs are different and registered, and each of them is that of a tuple that is begun. -/
structure Sound (c : Catalog) (m : Moment) : Prop where
  isOpen : c.Open m.opened
  tuples : m.tuples = m.opened.length

theorem sound_first (ty : TypeRef) : c.Sound (.first ty) :=
  ⟨.nil, rfl⟩

@[simp]
theorem tuples_members (fields : List Field) :
    (⟨Passage.members fields ++ todo, opened, written⟩ : Moment).tuples = todo.count .ending + 1 := by
  have inside : ((fields.map fun f => Passage.type f.ty).intersperse (.text ",")).count .ending = 0 := by
    induction fields with
    | nil => rfl
    | cons f fs ih =>
      cases fs with
      | nil => rfl
      | cons g fs => simpa using ih
  simp [Moment.tuples, Passage.members, inside]

theorem Open.tail (isOpen : c.Open opened) : c.Open opened.tail :=
  ⟨isOpen.distinct.sublist (List.tail_sublist opened),
    fun name mem => isOpen.registered name (List.mem_of_mem_tail mem)⟩

/-- A struct is opened when it is registered and not open, and closed at the end of its tuple. -/
theorem Sound.next (sound : c.Sound m) (step : c.Step m n) : c.Sound n := by
  obtain ⟨isOpen, tuples⟩ := sound
  obtain ⟨todo, opened, written⟩ := m
  cases todo with
  | nil => contradiction
  | cons passage todo =>
    cases passage with
    | text t =>
      cases step
      exact ⟨isOpen, by simpa [Moment.tuples] using tuples⟩
    | ending =>
      cases step
      refine ⟨isOpen.tail, ?_⟩
      simp only [Moment.tuples, List.count_cons_self] at tuples ⊢
      rw [List.length_tail, ← tuples, Nat.add_sub_cancel]
    | type ty =>
      cases ty with
      | struct name =>
        simp only [Step, next?] at step
        split at step
        · rename_i d found
          split at step
          · cases step
            exact ⟨isOpen, by simpa [Moment.tuples] using tuples⟩
          · rename_i fresh
            cases step
            refine ⟨isOpen.cons found fresh, ?_⟩
            rw [tuples_members, List.length_cons]
            simpa [Moment.tuples] using tuples
        · cases step
          exact ⟨isOpen, by simpa [Moment.tuples] using tuples⟩
      | _ =>
        cases step
        exact ⟨isOpen, by simpa [Moment.tuples] using tuples⟩

theorem Sound.writes (sound : c.Sound m) (run : c.Writes m n) : c.Sound n := by
  induction run with
  | refl => exact sound
  | tail _ step ih => exact ih.next step

/-- Moments at which the same structs are open: the text of each struct is put behind what is written, and
nothing else is changed. -/
def WritesStructs (c : Catalog) (opened : List String) (struct : String → String) : Prop :=
  ∀ name todo written, c.Writes ⟨.type (.struct name) :: todo, opened, written⟩
    ⟨todo, opened, written ++ struct name⟩

variable {struct : String → String}

theorem Writes.text {t : String} (run : c.Writes m ⟨.text t :: todo, opened, written⟩) :
    c.Writes m ⟨todo, opened, written ++ t⟩ :=
  run.tail rfl

theorem Writes.ending (run : c.Writes m ⟨.ending :: todo, opened, written⟩) :
    c.Writes m ⟨todo, opened.tail, written ++ ")"⟩ :=
  run.tail rfl

theorem WritesStructs.type (writes : c.WritesStructs opened struct) (ty : TypeRef) (todo : List Passage)
    (written : String) :
    c.Writes ⟨.type ty :: todo, opened, written⟩ ⟨todo, opened, written ++ ty.text struct⟩ := by
  induction ty generalizing todo written with
  | elementary kind => exact .single rfl
  | fixedArray element length ih =>
    have begun : c.Step ⟨.type (.fixedArray element length) :: todo, opened, written⟩
      ⟨.type element :: .text ("[" ++ toString length ++ "]") :: todo, opened, written⟩ := rfl
    have inner := ih (.text ("[" ++ toString length ++ "]") :: todo) written
    simpa only [TypeRef.text, String.append_assoc] using inner.text.head begun
  | dynamicArray element ih =>
    have begun : c.Step ⟨.type (.dynamicArray element) :: todo, opened, written⟩
      ⟨.type element :: .text "[]" :: todo, opened, written⟩ := rfl
    have inner := ih (.text "[]" :: todo) written
    simpa only [TypeRef.text, String.append_assoc] using inner.text.head begun
  | mapping key value ihk ihv =>
    have begun : c.Step ⟨.type (.mapping key value) :: todo, opened, written⟩
      ⟨.type key :: .text "=>" :: .type value :: .text ")" :: todo, opened, written ++ "mapping("⟩ := rfl
    have keyed := (ihk (.text "=>" :: .type value :: .text ")" :: todo) (written ++ "mapping(")).text
    have valued := Writes.text (keyed.trans (ihv (.text ")" :: todo) _))
    simpa only [TypeRef.text, String.append_assoc] using valued.head begun
  | struct name => exact writes name todo written

/-- The members of a tuple are written one after the other, and its end closes the struct. -/
theorem WritesStructs.members (writes : c.WritesStructs opened struct) (fields : List Field)
    (todo : List Passage) (written : String) :
    c.Writes ⟨Passage.members fields ++ todo, opened, written⟩
      ⟨todo, opened.tail, written ++ (",".intercalate (fields.map fun f => f.ty.text struct) ++ ")")⟩ := by
  induction fields generalizing written with
  | nil => exact .single rfl
  | cons f fs ih =>
    cases fs with
    | nil =>
      have member := (writes.type f.ty (.ending :: todo) written).ending
      simpa only [Passage.members_singleton, List.cons_append, List.nil_append, List.map_cons,
        List.map_nil, String.intercalate_singleton, String.append_assoc] using member
    | cons g fs =>
      have member := (writes.type f.ty (.text "," :: (Passage.members (g :: fs) ++ todo)) written).text
      have onward := member.trans (ih _)
      simpa only [Passage.members_cons_cons, List.cons_append, List.map_cons,
        String.intercalate_cons_cons, String.append_assoc] using onward

theorem writes_structs {depth : Nat} (isOpen : c.Open opened)
    (enough : c.structs.length ≤ depth + opened.length) :
    c.WritesStructs opened (c.structText depth opened) := by
  induction depth generalizing opened with
  | zero =>
    intro name todo written
    refine .single ?_
    simp only [Step, next?]
    split
    · rename_i d found
      rw [if_pos (isOpen.full (by omega) found), structText]
    · rfl
  | succ depth ih =>
    intro name todo written
    rw [structText]
    split
    · rename_i d found
      split
      · rename_i again
        refine .single ?_
        simp only [Step, next?, found, if_pos again]
      · rename_i fresh
        have begun : c.Step ⟨.type (.struct name) :: todo, opened, written⟩
            ⟨Passage.members d.fields ++ todo, name :: opened, written ++ "("⟩ := by
          simp only [Step, next?, found, if_neg fresh]
        have inner := ih (isOpen.cons found fresh) (by rw [List.length_cons]; omega)
        have ended := (inner.members d.fields todo (written ++ "(")).head begun
        simpa only [List.tail_cons, String.append_assoc] using ended
    · rename_i unknown
      refine .single ?_
      simp only [Step, next?, unknown]

/-- The text of a struct that is met while others are open. -/
def referenceText (c : Catalog) (opened : List String) (name : String) : String :=
  c.structText c.structs.length opened name

theorem referenceText_expanded (isOpen : c.Open opened) {d : StructDef} (found : c.struct? name = some d)
    (fresh : name ∉ opened) :
    c.referenceText opened name = tupleText (c.referenceText (name :: opened)) d.fields := by
  have inner := isOpen.cons found fresh
  have more := open_length_le inner
  rw [List.length_cons] at more
  obtain ⟨depth, count⟩ : ∃ depth, c.structs.length = depth + 1 := ⟨c.structs.length - 1, by omega⟩
  have same : c.structText depth (name :: opened) = c.referenceText (name :: opened) :=
    funext (structText_enough inner (by rw [List.length_cons]; omega) (by omega))
  rw [referenceText, count, structText, found, ← same]
  exact if_neg fresh

theorem referenceText_named (closed : c.struct? name = none ∨ name ∈ opened) :
    c.referenceText opened name = structByName name := by
  rw [referenceText]
  cases c.structs.length with
  | zero => rfl
  | succ depth =>
    rw [structText]
    split
    · rename_i d found
      exact if_pos (closed.resolve_left (by simp [found]))
    · rfl

/-- When writing comes to an end, it cannot go on forever: there is one next moment at most. -/
theorem acc_of_writes (run : c.Writes m n) (done : n.next? c = none) :
    Acc (fun next now => c.Step now next) m := by
  induction run using Relation.ReflTransGen.head_induction_on with
  | refl =>
    refine .intro _ fun next step => ?_
    rw [Step, done] at step
    contradiction
  | head step _ ih =>
    refine .intro _ fun next step' => ?_
    obtain rfl := Option.some.inj (step.symm.trans step')
    exact ih

/-- Writing a type ends with its signature. Up to then the open structs are different and registered, and
there are as many as tuples that are begun. A type is written with the same structs open before it and
behind it, and a struct in it as a tuple exactly when it is registered and not open. -/
structure WritingLaw (c : Catalog) (ty : TypeRef) : Prop where
  ends : Acc (fun next now => c.Step now next) (.first ty)
  signed : c.Writes (.first ty) ⟨[], [], c.signature ty⟩
  opened : ∀ m, c.Writes (.first ty) m → m.opened.Nodup ∧ (∀ name ∈ m.opened, c.Registered name) ∧
    m.tuples = m.opened.length ∧ m.tuples ≤ c.structs.length
  restored : ∀ inner todo opened written, c.Writes (.first ty) ⟨.type inner :: todo, opened, written⟩ →
    c.Writes ⟨.type inner :: todo, opened, written⟩
      ⟨todo, opened, written ++ inner.text (c.referenceText opened)⟩
  expanded : ∀ name d todo opened written,
    c.Writes (.first ty) ⟨.type (.struct name) :: todo, opened, written⟩ →
      c.struct? name = some d → name ∉ opened →
        c.referenceText opened name = tupleText (c.referenceText (name :: opened)) d.fields
  named : ∀ name todo opened written,
    c.Writes (.first ty) ⟨.type (.struct name) :: todo, opened, written⟩ →
      c.struct? name = none ∨ name ∈ opened → c.referenceText opened name = structByName name

theorem signature_written (c : Catalog) (ty : TypeRef) : WritingLaw c ty := by
  have sound {m : Moment} (run : c.Writes (.first ty) m) : c.Sound m := (sound_first ty).writes run
  have signed : c.Writes (.first ty) ⟨[], [], c.signature ty⟩ := by
    have structs : c.WritesStructs [] (c.structText c.structs.length []) :=
      writes_structs .nil (Nat.le_refl _)
    simpa only [Moment.first, signature, String.empty_append] using structs.type ty [] ""
  constructor
  · exact acc_of_writes signed rfl
  · exact signed
  · intro m run
    obtain ⟨isOpen, tuples⟩ := sound run
    exact ⟨isOpen.distinct, isOpen.registered, tuples, tuples ▸ open_length_le isOpen⟩
  · intro inner todo opened written run
    exact (writes_structs (sound run).isOpen (Nat.le_add_right _ _)).type inner todo written
  · intro name d todo opened written run found fresh
    exact referenceText_expanded (sound run).isOpen found fresh
  · intro name todo opened written run closed
    exact referenceText_named closed

/-- Two structs that contain each other, and a name that is not registered. The second member is written as
the first one is. -/
example :
    Catalog.signature
      ⟨[⟨"P", [⟨"q", .struct "Q"⟩, ⟨"r", .struct "Q"⟩]⟩, ⟨"Q", [⟨"p", .struct "P"⟩, ⟨"x", .struct "X"⟩]⟩], []⟩
      (.struct "P") = "((struct P,struct X),(struct P,struct X))" := by
  decide

end Catalog

end ContractRegistry
