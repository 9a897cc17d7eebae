import ContractRegistry.Shell.Run

/-!
What a shell makes of its arguments.

Quoted text stays as it is: it does not fall apart, whatever the separators are, and no part of it is a
pattern. So the arguments in quotes are the arguments, each one by itself, and so is a variable in quotes.
-/
namespace ContractRegistry.Shell

def quotedLetters (cs : List Char) : List Letter :=
  cs.map fun c => ⟨true, c⟩

theorem fieldsFrom_fixed (separators : List Char) (cs : List Char) (skipping : Skipping)
    (atoms : List Atom) :
    fieldsFrom separators .fresh skipping (Atom.fixed cs ++ atoms) =
      fieldsFrom separators ⟨(quotedLetters cs).reverse, true⟩ .nothing atoms := by
  have letters : ∀ front : List Letter,
      fieldsFrom separators ⟨front, true⟩ .nothing (cs.map (fun c => .letter false ⟨true, c⟩) ++ atoms) =
        fieldsFrom separators ⟨(quotedLetters cs).reverse ++ front, true⟩ .nothing atoms := by
    induction cs with
    | nil => intro front; rfl
    | cons c cs ih =>
      intro front
      have push := ih (⟨true, c⟩ :: front)
      simpa [fieldsFrom, OpenField.push, quotedLetters] using push
  have first := letters []
  rw [List.append_nil] at first
  exact first

theorem fields_fixed (separators : List Char) (texts : List String) :
    fields separators ((texts.map fun text => Atom.fixed text.toList).intersperse [.gap]).flatten =
      texts.map fun text => quotedLetters text.toList := by
  unfold fields
  induction texts with
  | nil => rfl
  | cons text texts ih =>
    cases texts with
    | nil =>
      have last := fieldsFrom_fixed separators text.toList .nothing []
      simpa [fieldsFrom, OpenField.closed] using last
    | cons other texts =>
      have front := fieldsFrom_fixed separators text.toList .nothing
        (.gap :: ((((other :: texts).map fun text => Atom.fixed text.toList).intersperse [.gap]).flatten))
      simp only [fieldsFrom, OpenField.closed, List.reverse_reverse, ih] at front
      simpa [List.intersperse] using front

namespace Pattern

theorem steps_quoted (fuel : Nat) {ls : List Letter} (quoted : ∀ l ∈ ls, l.quoted = true) :
    ∀ s ∈ steps fuel ls, ∃ c, s = .exactly c := by
  induction fuel generalizing ls with
  | zero => simp [steps]
  | succ fuel ih =>
    cases ls with
    | nil => simp [steps]
    | cons l ls =>
      obtain ⟨first, others⟩ := List.forall_mem_cons.mp quoted
      simp only [steps, isSign, first, Bool.not_true, Bool.false_and, Bool.false_eq_true, if_false]
      exact List.forall_mem_cons.mpr ⟨⟨_, rfl⟩, ih others⟩

theorem isPattern_quoted (cs : List Char) : isPattern (quotedLetters cs) = false := by
  unfold isPattern ofLetters
  rw [List.any_eq_false]
  intro s member
  have quoted : ∀ l ∈ (quotedLetters cs).flatMap fun l : Letter =>
      (bytesIn [l.char]).map fun c => (⟨l.quoted, c⟩ : Letter), l.quoted = true := by
    simp only [quotedLetters, List.mem_flatMap, List.mem_map]
    rintro l ⟨_, ⟨c, -, rfl⟩, b, -, rfl⟩
    rfl
  obtain ⟨c, rfl⟩ := steps_quoted _ quoted s member
  simp

theorem text_quoted (cs : List Char) : text (quotedLetters cs) = cs := by
  simp [text, quotedLetters, Function.comp_def]

end Pattern

namespace Session

theorem pathsOf_plain (s : Session) {field : List Letter} (plain : Pattern.isPattern field = false) :
    s.pathsOf field = [String.ofList (Pattern.text field)] := by
  simp [pathsOf, Pattern.paths, plain]

theorem wordsOf_fixed (s : Session) (texts : List String) :
    s.wordsOf ((texts.map fun text => Atom.fixed text.toList).intersperse [.gap]).flatten = texts := by
  unfold wordsOf
  rw [fields_fixed, List.flatMap_map]
  simp [pathsOf_plain _ (Pattern.isPattern_quoted _), Pattern.text_quoted]

end Session

theorem expandWords_cons {fuel : Nat} {declaring : Option Bool} {w : Word} {ws : List Word} {s t : Session}
    {atoms : List Atom} (apart : declaring ≠ some true)
    (first : expandParts fuel true false (tilde s w) s = (atoms, t)) (going : t.flow = .going) :
    expandWords (fuel + 1) declaring (w :: ws) s =
      (expandWords fuel (declaring.or ((t.wordsOf atoms).head?.map declarations.contains)) ws t).map
        (t.wordsOf atoms ++ ·) id := by
  simp [expandWords, apart, first, going, Prod.map]

theorem expandParts_parameter (fuel : Nat) (p : Parameter) {s : Session} {v : Value}
    (given : s.meaningOf? true p = some v) (going : s.flow = .going) :
    expandParts (fuel + 3) true false [.parameter true p .plain] s = (s.atomsOf true true v, s) := by
  simp [expandParts, expandPart, expandParameter, given, going]

/-- The arguments in quotes are the arguments, whatever they contain, and nothing when there are none. -/
theorem expandWords_arguments (fuel : Nat) {declaring : Option Bool} (apart : declaring ≠ some true)
    {s : Session} (going : s.flow = .going) :
    expandWords (fuel + 5) declaring [[.parameter true .arguments .plain]] s = (s.arguments, s) := by
  have given : expandParts (fuel + 4) true false [.parameter true .arguments .plain] s =
      (((s.arguments.map fun text => Atom.fixed text.toList).intersperse [.gap]).flatten, s) := by
    by_cases none : s.arguments = []
    · simp [expandParts, expandPart, expandParameter, Session.meaningOf?, none, Parameter.isRequired,
        Parameter.noAtoms, going]
    · rw [expandParts_parameter (fuel + 1) .arguments (if_neg none) going]
      simp [Session.atomsOf, Atom.ofValue]
  rw [expandWords_cons apart given going, s.wordsOf_fixed]
  simp [expandWords]

/-- A variable in quotes is one word, whatever its value is. -/
theorem expandWords_variable (fuel : Nat) {declaring : Option Bool} (apart : declaring ≠ some true)
    {s : Session} {name text : String} (given : s.value? name = some text) (going : s.flow = .going) :
    expandWords (fuel + 5) declaring [[.parameter true (.variable name) .plain]] s = ([text], s) := by
  have meaning : s.meaningOf? true (.variable name) = some (.one text) := by
    simp [Session.meaningOf?, given]
  have one : s.wordsOf (Atom.fixed text.toList) = [text] := by
    simpa using s.wordsOf_fixed [text]
  rw [expandWords_cons apart (expandParts_parameter (fuel + 1) _ meaning going) going]
  simp [expandWords, Session.atomsOf, Atom.ofValue, one]

end ContractRegistry.Shell
