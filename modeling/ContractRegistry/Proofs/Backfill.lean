import ContractRegistry.Proofs.Forwarded
import ContractRegistry.Proofs.Numeral
import ContractRegistry.Proofs.Program
import ContractRegistry.Proofs.Shell.Listing
import ContractRegistry.Proofs.Text.Utf8

/-!
Programs that tell what a backfill is for.

The contracts are arguments of the program, behind the fixed ones. A shell that lists its arguments tells
each on a line of its own, and `echo` tells all of them on one line.
-/
namespace ContractRegistry

open Shell (listingScript Verbatim)
open Shell.Escape (bytesOf)
open Text.Utf8 (encode decodeLossy)

/-- Text that stands on one line and is told as it is. -/
structure OneLine (text : String) : Prop where
  unbroken : '\n' ∉ text.toList
  kept : text.toList.getLast? ≠ some '\r'

theorem not_mem_toString {c : Char} (other : c.isDigit = false) (n : Nat) : c ∉ (toString n).toList := by
  rw [Nat.toString_eq_repr, Nat.toList_repr]
  intro member
  rw [Numeral.isDigit_of_mem_toDigits c member] at other
  cases other

theorem oneLine_of_notMem {text : String} (unbroken : '\n' ∉ text.toList) (kept : '\r' ∉ text.toList) :
    OneLine text :=
  ⟨unbroken, fun last => kept (List.mem_of_getLast? last)⟩

theorem oneLine_toString (n : Nat) : OneLine (toString n) :=
  oneLine_of_notMem (not_mem_toString rfl n) (not_mem_toString rfl n)

theorem verbatim_toString (n : Nat) : Verbatim (toString n) := by
  refine ⟨not_mem_toString rfl n, fun same => ?_⟩
  exact not_mem_toString (c := '-') rfl n (by simp [same])

theorem mem_intercalate {separator : String} {texts : List String} {c : Char}
    (member : c ∈ (separator.intercalate texts).toList) :
    c ∈ separator.toList ∨ ∃ text ∈ texts, c ∈ text.toList := by
  induction texts with
  | nil => simp at member
  | cons text texts ih =>
    cases texts with
    | nil =>
      rw [String.intercalate_singleton] at member
      exact .inr ⟨text, List.mem_cons_self, member⟩
    | cons other texts =>
      rw [String.intercalate_cons_cons, String.toList_append, String.toList_append] at member
      rcases List.mem_append.mp member with front | behind
      · rcases List.mem_append.mp front with here | between
        · exact .inr ⟨text, List.mem_cons_self, here⟩
        · exact .inl between
      · rcases ih behind with between | ⟨later, listed, there⟩
        · exact .inl between
        · exact .inr ⟨later, List.mem_cons_of_mem _ listed, there⟩

theorem not_mem_spaced {c : Char} (other : c.isDigit = false) (apart : c ≠ ' ') (ids : List Nat) :
    c ∉ (" ".intercalate (ids.map toString)).toList := by
  intro member
  rcases mem_intercalate member with between | ⟨text, listed, there⟩
  · exact apart (List.mem_singleton.mp between)
  · obtain ⟨n, -, rfl⟩ := List.mem_map.mp listed
    exact not_mem_toString other n there

namespace Tool

theorem echoLetters?_toString (n : Nat) : echoLetters? (toString n) = none := by
  unfold echoLetters?
  split
  · rename_i front
    exact absurd (front ▸ List.mem_cons_self) (not_mem_toString (c := '-') rfl n)
  · rfl

/-- Numbers are no options of `echo`. -/
theorem echo_numbers (name : String) (ids : List Nat) (files : FileTree) :
    echo ⟨name, ids.map toString, [], files⟩ =
      ⟨[.output (bytesOf (" ".intercalate (ids.map toString)) ++ [10])], 0, 0, files⟩ := by
  unfold echo Task.give Task.leave
  cases ids with
  | nil => rfl
  | cons n ids =>
    rw [List.map_cons, echoed, echoLetters?_toString]
    rfl

end Tool

namespace Program

theorem start_sh {arguments : List String} (passable : ∀ text ∈ arguments, '\x00' ∉ text.toList) :
    start .empty "sh" arguments = .ok (Shell.start .empty "sh" arguments) := by
  have found : SearchPath.find .empty directories "sh" = .ok ("/usr/bin/sh", "sh") := by decide +kernel
  refine start_eq_ok_iff.mpr ⟨?_, by decide, .inl (by decide), by decide, _, _, found, rfl⟩
  exact List.forall_mem_cons.mpr ⟨by decide, passable⟩

theorem start_echo (ids : List Nat) :
    start .empty "echo" (ids.map toString) =
      .ok (⟨bytesOf (" ".intercalate (ids.map toString)) ++ [10], [], .code 0⟩, .empty) := by
  have found : SearchPath.find .empty directories "echo" = .ok ("/usr/bin/echo", "echo") := by
    decide +kernel
  refine start_eq_ok_iff.mpr ⟨?_, by decide, .inl (by decide), by decide, _, _, found, ?_⟩
  · refine List.forall_mem_cons.mpr ⟨by decide, List.forall_mem_map.mpr fun n _ => ?_⟩
    exact not_mem_toString rfl n
  · have told : Tool.run? "echo" ⟨"echo", ids.map toString, [], .empty⟩ = some _ :=
      congrArg some (Tool.echo_numbers "echo" ids .empty)
    rw [run, told]
    simp [toolRun]

end Program

namespace Backfill

theorem told_lines {texts : List String} (plain : ∀ text ∈ texts, OneLine text) :
    CutBehind '\n' (texts.flatMap fun text => text.toList ++ ['\n'])
        (texts.map fun text => text.toList ++ ['\n']) ∧
      List.Forall₂ Stripped (texts.map fun text => text.toList ++ ['\n']) texts := by
  induction texts with
  | nil => exact ⟨.nothing, .nil⟩
  | cons text texts ih =>
    obtain ⟨first, others⟩ := List.forall_mem_cons.mp plain
    obtain ⟨cut, stripped⟩ := ih others
    constructor
    · simp only [List.flatMap_cons, List.map_cons, List.append_assoc, List.singleton_append]
      exact .ended first.unbroken cut
    · refine .cons ⟨['\n'], rfl, by simp, ?_⟩ stripped
      rintro c last (rfl | rfl)
      · exact first.unbroken (List.mem_of_getLast? last)
      · exact first.kept last

theorem forwarded_lines {texts : List String} (plain : ∀ text ∈ texts, OneLine text) :
    forwarded (texts.flatMap fun text => bytesOf text ++ [10]) = texts := by
  have bytes : texts.flatMap (fun text => bytesOf text ++ [10]) =
      encode (texts.flatMap fun text => text.toList ++ ['\n']) := by
    have feed : Text.Utf8.encodeChar '\n' = [10] := by decide
    simp [encode, Shell.Escape.bytesOf, List.flatMap_assoc, feed]
  have whole : decodeLossy (encode (texts.flatMap fun text => text.toList ++ ['\n'])) =
      texts.flatMap fun text => text.toList ++ ['\n'] := by
    rw [decodeLossy, Text.Utf8.pieces_encode, List.map_map]
    exact List.map_id _
  obtain ⟨cut, stripped⟩ := told_lines plain
  have told : ToldAs (texts.flatMap fun text => bytesOf text ++ [10]) texts := by
    refine ⟨_, ?_, stripped⟩
    rw [bytes, whole]
    exact cut
  exact (told_iff.mp told).symm

def listing : Backfill :=
  ⟨"sh", ["-c", listingScript, "backfill"]⟩

/-- The contracts that a backfill is for reach its program, all of them and in order. -/
theorem listing_tells (ids : List Nat) (few : ids.length + 12 < Shell.turnLimit) :
    ∃ run files, Program.start .empty listing.program (listing.arguments ids) = .ok (run, files) ∧
      forwarded run.stdout = ids.map toString ∧
      listing.result ids (.ok run) = .ok ⟨ids, ids.length, 0⟩ := by
  have passable : ∀ text ∈ listing.arguments ids, '\x00' ∉ text.toList := by
    intro text member
    rcases List.mem_append.mp member with fixed | id
    · have all : ∀ text ∈ listing.fixed, '\x00' ∉ text.toList := by
        simp [listing, listingScript]
      exact all text fixed
    · obtain ⟨n, -, rfl⟩ := List.mem_map.mp id
      exact not_mem_toString rfl n
  obtain ⟨after, wrote⟩ := Shell.start_listing .empty "sh" "backfill"
    (List.forall_mem_map.mpr fun n _ => verbatim_toString n) (by rwa [List.length_map])
  have told := forwarded_lines (List.forall_mem_map.mpr fun n (_ : n ∈ ids) => oneLine_toString n)
  refine ⟨_, after, (Program.start_sh passable).trans (congrArg Except.ok wrote), told, ?_⟩
  have success : (ExitStatus.code 0).isSuccess = true := rfl
  simp only [result, success, if_true, told, List.length_map]
  rfl

theorem echo_tells (ids : List Nat) :
    ∃ run files, Program.start .empty "echo" (arguments ⟨"echo", []⟩ ids) = .ok (run, files) ∧
      forwarded run.stdout = [" ".intercalate (ids.map toString)] ∧
      result ⟨"echo", []⟩ ids (.ok run) = .ok ⟨ids, 1, 0⟩ := by
  have line : OneLine (" ".intercalate (ids.map toString)) :=
    oneLine_of_notMem (not_mem_spaced rfl (by decide) ids) (not_mem_spaced rfl (by decide) ids)
  have told := forwarded_lines (List.forall_mem_singleton.mpr line)
  rw [List.flatMap_singleton] at told
  refine ⟨_, _, Program.start_echo ids, told, ?_⟩
  have success : (ExitStatus.code 0).isSuccess = true := rfl
  simp only [result, success, if_true, told]
  rfl

end Backfill

end ContractRegistry
