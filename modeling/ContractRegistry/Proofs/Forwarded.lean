import ContractRegistry.Backfill
import ContractRegistry.Proofs.Text.Lossy
import Mathlib.Data.List.DropRight
import Mathlib.Data.List.Forall2

/-!
What a backfill forwards, and what decides its result.

A stream is cut into lines while it is still bytes, and each line is read by itself. The lines are those
of the text that the whole stream stands for. How many there are is reported; only the exit status
decides whether the run succeeded.
-/
namespace ContractRegistry

/-- A sequence cut behind each mark. What follows the last one is a part, unless it is empty. -/
inductive CutBehind {α : Type} (mark : α) : List α → List (List α) → Prop
  | nothing : CutBehind mark [] []
  | rest {line : List α} (filled : line ≠ []) (unmarked : mark ∉ line) : CutBehind mark line [line]
  | ended {line rest : List α} {lines : List (List α)} (unmarked : mark ∉ line)
      (cut : CutBehind mark rest lines) :
      CutBehind mark (line ++ mark :: rest) ((line ++ [mark]) :: lines)

section
variable {α : Type} {mark : α} {xs : List α}

theorem parted_eq {a b c d : List α} (first : mark ∉ a) (second : mark ∉ b)
    (eq : a ++ mark :: c = b ++ mark :: d) : a = b ∧ c = d := by
  induction a generalizing b with
  | nil =>
    cases b with
    | nil => exact ⟨rfl, (List.cons.inj eq).2⟩
    | cons y b => exact absurd ((List.cons.inj eq).1 ▸ List.mem_cons_self) second
  | cons x a ih =>
    cases b with
    | nil => exact absurd ((List.cons.inj eq).1.symm ▸ List.mem_cons_self) first
    | cons y b =>
      obtain ⟨rfl, tails⟩ := List.cons.inj eq
      obtain ⟨rfl, rests⟩ := ih (List.not_mem_of_not_mem_cons first)
        (List.not_mem_of_not_mem_cons second) tails
      exact ⟨rfl, rests⟩

theorem CutBehind.unique {lines : List (List α)} (cut : CutBehind mark xs lines) :
    ∀ {others}, CutBehind mark xs others → others = lines := by
  induction cut with
  | nothing =>
    intro others other
    generalize eq : [] = ys at other
    cases other with
    | nothing => rfl
    | rest filled => exact absurd eq.symm filled
    | ended => simp at eq
  | @rest line filled unmarked =>
    intro others other
    generalize eq : line = ys at other
    cases other with
    | nothing => exact absurd eq filled
    | rest => rfl
    | ended => simp [eq] at unmarked
  | @ended line rest lines unmarked cut ih =>
    intro others other
    generalize eq : line ++ mark :: rest = ys at other
    cases other with
    | nothing => simp at eq
    | rest _ unmarked => simp [← eq] at unmarked
    | ended unmarked' other =>
      obtain ⟨rfl, rfl⟩ := parted_eq unmarked unmarked' eq
      rw [ih other]

end

namespace Backfill

open Text.Utf8 (decodeLossy)

/-- The text of a line is the line without all line feeds and carriage returns at its end. -/
def Stripped (line : List Char) (told : String) : Prop :=
  ∃ ends, line = told.toList ++ ends ∧ (∀ c ∈ ends, c = '\n' ∨ c = '\r') ∧
    ∀ c ∈ told.toList.getLast?, ¬ (c = '\n' ∨ c = '\r')

/-- The lines that a stream should be told as: its whole text, cut and stripped. -/
def ToldAs (stream : List UInt8) (told : List String) : Prop :=
  ∃ lines, CutBehind '\n' (decodeLossy stream) lines ∧ List.Forall₂ Stripped lines told

/-- What becomes of a run: its streams are told and their lines counted, and its status alone decides
whether it succeeded. -/
structure RunLaw (b : Backfill) (ids : List Nat) (run : ProcessRun) : Prop where
  stdout : ∀ told, ToldAs run.stdout told ↔ told = forwarded run.stdout
  stderr : ∀ told, ToldAs run.stderr told ↔ told = forwarded run.stderr
  success : ∀ summary, b.result ids (.ok run) = .ok summary ↔
    run.status = .code 0 ∧
      ∃ out err, ToldAs run.stdout out ∧ ToldAs run.stderr err ∧
        summary = ⟨ids, out.length, err.length⟩
  failure : ∀ e, b.result ids (.ok run) = .error e ↔
    run.status ≠ .code 0 ∧ e = .failed run.status

theorem lines_cut (stream : List UInt8) : CutBehind lineFeed stream (lines stream) := by
  induction stream with
  | nil => exact .nothing
  | cons b bs ih =>
    rw [lines]
    split
    · next feed =>
      rw [feed]
      have begun := CutBehind.ended List.not_mem_nil ih
      exact begun
    · next other =>
      have apart {line : List UInt8} (unmarked : lineFeed ∉ line) : lineFeed ∉ b :: line :=
        List.not_mem_cons_of_ne_of_not_mem (Ne.symm other) unmarked
      generalize lines bs = ls at ih
      cases ih with
      | nothing => exact .rest (List.cons_ne_nil b []) (apart List.not_mem_nil)
      | rest _ unmarked => exact .rest (List.cons_ne_nil b _) (apart unmarked)
      | ended unmarked cut => exact .ended (apart unmarked) cut

theorem toNat_ne_of_unmarked {line : List UInt8} (unmarked : lineFeed ∉ line) :
    ∀ b ∈ line, b.toNat ≠ 10 := by
  intro b mem eq
  have feed : b = lineFeed := UInt8.toNat_inj.mp eq
  exact unmarked (feed ▸ mem)

theorem cut_decoded {stream : List UInt8} {parts : List (List UInt8)}
    (cut : CutBehind lineFeed stream parts) :
    CutBehind '\n' (decodeLossy stream) (parts.map decodeLossy) := by
  induction cut with
  | nothing => exact .nothing
  | rest filled unmarked =>
    apply CutBehind.rest
    · exact Text.Utf8.decodeLossy_ne_nil filled
    · exact Text.Utf8.decodeLossy_no_lineFeed (toNat_ne_of_unmarked unmarked)
  | @ended line rest parts unmarked cut ih =>
    have plain := Text.Utf8.decodeLossy_no_lineFeed (toNat_ne_of_unmarked unmarked)
    have whole (more : List UInt8) :
        decodeLossy (line ++ lineFeed :: more) = decodeLossy line ++ '\n' :: decodeLossy more :=
      Text.Utf8.decodeLossy_append_lineFeed rfl more
    rw [List.map_cons, whole rest, whole []]
    exact .ended plain ih

theorem isLineEnd_iff {c : Char} : isLineEnd c = true ↔ c = '\n' ∨ c = '\r' := by
  simp [isLineEnd]

theorem dropEndWhile_append {told ends : List Char} (dropped : ∀ c ∈ ends, isLineEnd c = true)
    (kept : ∀ c ∈ told.getLast?, ¬ isLineEnd c = true) :
    Text.dropEndWhile isLineEnd (told ++ ends) = told := by
  have last : ∀ filled : told ≠ [], ¬ isLineEnd (told.getLast filled) = true := by
    intro filled
    exact kept _ (List.getLast?_eq_some_getLast filled)
  calc Text.dropEndWhile isLineEnd (told ++ ends)
      = ((ends.reverse ++ told.reverse).dropWhile isLineEnd).reverse := by
        rw [Text.dropEndWhile, List.reverse_append]
    _ = told.rdropWhile isLineEnd := by
        rw [List.dropWhile_append_of_pos (by simpa using dropped), List.rdropWhile]
    _ = told := List.rdropWhile_eq_self_iff.mpr last

theorem stripped_iff {line : List Char} {told : String} :
    Stripped line told ↔ String.ofList (Text.dropEndWhile isLineEnd line) = told := by
  constructor
  · rintro ⟨ends, rfl, dropped, kept⟩
    simp only [← isLineEnd_iff] at dropped kept
    rw [dropEndWhile_append dropped kept, String.ofList_toList]
  · rintro rfl
    refine ⟨line.rtakeWhile isLineEnd, ?_, ?_, ?_⟩
    · rw [String.toList_ofList]
      exact (List.rdropWhile_append_rtakeWhile ..).symm
    · intro c mem
      exact isLineEnd_iff.mp (List.mem_rtakeWhile_imp mem)
    · intro c last
      rw [String.toList_ofList] at last
      obtain ⟨filled, rfl⟩ := List.mem_getLast?_eq_getLast last
      rw [← isLineEnd_iff]
      exact List.rdropWhile_last_not isLineEnd line filled

theorem told_iff {stream : List UInt8} {told : List String} :
    ToldAs stream told ↔ told = forwarded stream := by
  have cut := cut_decoded (lines_cut stream)
  have strip : List.Forall₂ Stripped ((lines stream).map decodeLossy) told ↔
      told = forwarded stream := by
    simp only [stripped_iff, List.forall₂_map_left_iff]
    rw [← List.forall₂_map_left_iff (R := (· = ·)), List.forall₂_eq_eq_eq, eq_comm]
    rfl
  constructor
  · rintro ⟨ls, other, stripped⟩
    rw [cut.unique other] at stripped
    exact strip.mp stripped
  · intro eq
    exact ⟨_, cut, strip.mpr eq⟩

-- A character cut short by the end of its line, an empty line, and a last line without an end.
example : forwarded [0xC3, 10, 13, 10, 98, 0xF0, 0x9F] = ["\uFFFD", "", "b\uFFFD"] := by
  decide

theorem run_told (b : Backfill) (ids : List Nat) (run : ProcessRun) : RunLaw b ids run := by
  have ended : run.status.isSuccess = true ↔ run.status = .code 0 := decide_eq_true_iff
  constructor
  · exact fun told => told_iff
  · exact fun told => told_iff
  · intro summary
    simp only [told_iff, result, ended]
    split
    · next success => simp [success, eq_comm]
    · next failure => simp [failure]
  · intro e
    simp only [result, ended]
    split
    · next success => simp [success]
    · next failure => simp [failure, eq_comm]

end Backfill

end ContractRegistry
