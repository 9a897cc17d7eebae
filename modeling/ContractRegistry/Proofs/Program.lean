import ContractRegistry.Program
import ContractRegistry.Proofs.Outcome

/-!
Which program a name starts.

Directories are gone through in their order, and the first program of the name is taken. Without one the
failure is the last that tells more than that there is nothing of this name.
-/
namespace ContractRegistry

namespace SearchPath

open FileTree (join)

variable {t : FileTree} {name : String}

/-- The first program of a name in some directories, with its path. -/
inductive First (t : FileTree) (name : String) : List String → String × String → Prop where
  | here {directory program : String} {more : List String}
    (found : atPath t (join directory name) = .ok program) :
    First t name (directory :: more) (join directory name, program)
  | later {directory : String} {more : List String} {place : String × String} {e : FileError}
    (missing : atPath t (join directory name) = .error e) (others : First t name more place) :
    First t name (directory :: more) place

def tellsMore (e : FileError) : Bool :=
  e ≠ .notFound && e ≠ .notDirectory

theorem search_missing {directory : String} {e : FileError}
    (missing : atPath t (join directory name) = .error e) (earlier : FileError) (more : List String) :
    search t name earlier (directory :: more) =
      search t name (if tellsMore e then e else earlier) more := by
  simp only [search, missing]
  cases e <;> rfl

theorem search_eq_ok_iff {earlier : FileError} {directories : List String} {place : String × String} :
    search t name earlier directories = .ok place ↔ First t name directories place := by
  induction directories generalizing earlier with
  | nil =>
    constructor
    · intro found
      cases found
    · intro found
      cases found
  | cons directory more ih =>
    cases here : atPath t (join directory name) with
    | ok program =>
      simp only [search, here, Except.ok.injEq]
      constructor
      · rintro rfl
        exact .here here
      · rintro (⟨found⟩ | ⟨missing, -⟩)
        · cases here.symm.trans found
          rfl
        · cases here.symm.trans missing
    | error e =>
      rw [search_missing here, ih]
      constructor
      · exact .later here
      · rintro (⟨found⟩ | ⟨-, others⟩)
        · cases here.symm.trans found
        · exact others

/-- Without a program of the name the last failure that tells more is told. -/
theorem search_without {directories : List String} {cause : String → FileError}
    (missing : ∀ directory ∈ directories, atPath t (join directory name) = .error (cause directory))
    (earlier : FileError) :
    search t name earlier directories =
      .error ((((directories.map cause).filter tellsMore).getLast?).getD earlier) := by
  induction directories generalizing earlier with
  | nil => rfl
  | cons directory more ih =>
    obtain ⟨first, others⟩ := List.forall_mem_cons.mp missing
    rw [search_missing first, ih others, List.map_cons]
    by_cases told : tellsMore (cause directory) = true
    · rw [if_pos told, List.filter_cons_of_pos told, List.getLast?_cons]
      rfl
    · rw [if_neg told, List.filter_cons_of_neg told]

/-- A name with a slash is a path, and the directories do not count. -/
theorem find_eq_ok_iff {directories : List String} {place : String × String} :
    find t directories name = .ok place ↔
      if '/' ∈ name.toList then place.1 = name ∧ atPath t name = .ok place.2
      else First t name directories place := by
  unfold find
  by_cases slash : '/' ∈ name.toList
  · obtain ⟨path, program⟩ := place
    rw [if_pos (List.contains_iff_mem.mpr slash), if_pos slash, bind_eq_ok]
    constructor
    · rintro ⟨_, found, same⟩
      cases same
      exact ⟨rfl, found⟩
    · rintro ⟨rfl, found⟩
      exact ⟨program, found, rfl⟩
  · rw [if_neg (mt List.contains_iff_mem.mp slash), if_neg slash]
    exact search_eq_ok_iff

end SearchPath

namespace Program

/-- A program is started exactly when the name and the arguments can be passed on and the name is found. -/
theorem start_eq_ok_iff {files : FileTree} {name : String} {arguments : List String}
    {r : ProcessRun × FileTree} :
    start files name arguments = .ok r ↔
      (∀ text ∈ name :: arguments, '\x00' ∉ text.toList) ∧ name ≠ "" ∧
        (name.utf8ByteSize < FileTree.partLimit ∨ '/' ∈ name.toList) ∧
        name.utf8ByteSize < FileTree.pathLimit ∧
        ∃ path program, SearchPath.find files directories name = .ok (path, program) ∧
          r = run files program name arguments := by
  have passable : ¬ (!(name :: arguments).all isPassable) = true ↔
      ∀ text ∈ name :: arguments, '\x00' ∉ text.toList := by
    simp [isPassable]
  have short : ¬ (decide (FileTree.partLimit ≤ name.utf8ByteSize) && !name.toList.contains '/') = true ↔
      name.utf8ByteSize < FileTree.partLimit ∨ '/' ∈ name.toList := by
    by_cases slash : '/' ∈ name.toList <;> simp [slash]
  unfold start
  dsimp only
  rw [ite_throw_bind_eq_ok, ite_throw_bind_eq_ok, ite_throw_bind_eq_ok, ite_throw_bind_eq_ok, bind_eq_ok,
    passable, short, Nat.not_le]
  simp only [Prod.exists, Except.ok.injEq, ne_eq, eq_comm (a := r)]

end Program

end ContractRegistry
