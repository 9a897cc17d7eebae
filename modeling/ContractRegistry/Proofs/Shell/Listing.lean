import ContractRegistry.Proofs.Shell.Arguments
import Mathlib.Data.List.Basic

/-!
A script that goes through its arguments and writes each on a line.

One turn of the loop writes one line and leaves the shell ready for the next turn, so as many lines are
written as there are arguments.
-/
namespace ContractRegistry.Shell

/-- `echo "$id"` -/
def echoId : Command :=
  .simple ⟨1, [], [[.text false ['e', 'c', 'h', 'o']], [.parameter true (.variable "id") .plain]], []⟩

/-- `for id in "$@"; do echo "$id"; done` -/
def listing : Command :=
  .each 1 "id" (some [[.parameter true .arguments .plain]]) echoId

def listingScript : String :=
  "for id in \"$@\"; do echo \"$id\"; done"

theorem nextLine_listing :
    nextLine (tokensFrom 1 listingScript.toList) = .ok (some (listing, [⟨1, .sign .finish⟩])) := by
  decide +kernel

theorem wordsOf_echo (s : Session) : s.wordsOf (Atom.written false ['e', 'c', 'h', 'o']) = ["echo"] := by
  have one : fields s.separators (Atom.written false ['e', 'c', 'h', 'o']) =
      [[⟨false, 'e'⟩, ⟨false, 'c'⟩, ⟨false, 'h'⟩, ⟨false, 'o'⟩]] := by
    simp [fields, fieldsFrom, Atom.written, OpenField.push, OpenField.closed, OpenField.fresh]
  have plain : Pattern.isPattern [⟨false, 'e'⟩, ⟨false, 'c'⟩, ⟨false, 'h'⟩, ⟨false, 'o'⟩] = false := rfl
  rw [Session.wordsOf, one, List.flatMap_singleton, s.pathsOf_plain plain]
  rfl

theorem expandWords_echo (fuel : Nat) {s : Session} {text : String} (given : s.value? "id" = some text)
    (going : s.flow = .going) :
    expandWords (fuel + 6) none
      [[.text false ['e', 'c', 'h', 'o']], [.parameter true (.variable "id") .plain]] s =
        (["echo", text], s) := by
  have first : expandParts (fuel + 5) true false (tilde s [.text false ['e', 'c', 'h', 'o']]) s =
      (Atom.written false ['e', 'c', 'h', 'o'], s) := by
    have homeless : tilde s [.text false ['e', 'c', 'h', 'o']] = [.text false ['e', 'c', 'h', 'o']] := rfl
    rw [homeless]
    simp [expandParts, expandPart, going]
  have declares : declarations.contains "echo" = false := by decide
  rw [expandWords_cons (by simp) first going, wordsOf_echo, List.head?_cons, Option.map_some, declares,
    Option.none_or, expandWords_variable fuel (by simp) given going]
  rfl

theorem runSimple_plain (fuel : Nat) (tested : Bool) {p : Simple} {s t : Session} {words : List String}
    (unassigned : p.assignments = []) (undirected : p.redirections = [])
    (expanded : expandWords (fuel + 1) none p.words { s with line := p.line, innerStatus := 0 } = (words, t))
    (going : t.flow = .going) (untraced : t.isSet 'x' = false) (some_word : words ≠ [])
    (not_exec : words ≠ ["exec"]) :
    runSimple (fuel + 2) tested p s = (call (fuel + 1) tested false words t).withStreams t [] := by
  simp [runSimple, expanded, Session.next, going, undirected, expandWays, Session.leadAll, unassigned,
    assignAll, some_word, not_exec, trace, untraced]

/-- Text that is written as it is. -/
def Verbatim (text : String) : Prop :=
  '\\' ∉ text.toList ∧ text ≠ "-n"

theorem unescapeWithin_of_notMem {cs : List Char} (plain : '\\' ∉ cs) :
    ∀ fuel, cs.length < fuel → Escape.unescapeWithin false fuel cs = ⟨Text.Utf8.encode cs, false⟩ := by
  induction cs with
  | nil =>
    intro fuel enough
    obtain ⟨fuel, rfl⟩ : ∃ fewer, fuel = fewer + 1 := ⟨fuel - 1, by omega⟩
    rfl
  | cons c cs ih =>
    intro fuel enough
    obtain ⟨fuel, rfl⟩ : ∃ fewer, fuel = fewer + 1 := ⟨fuel - 1, by omega⟩
    rw [List.mem_cons, not_or] at plain
    obtain ⟨first, others⟩ := plain
    rw [List.length_cons] at enough
    have escape : c ≠ '\\' := Ne.symm first
    rw [Escape.unescapeWithin, ih others fuel (by omega)]
    · simp [Escape.Written.after, Text.Utf8.encode]
    · exact fun _ same => absurd same escape
    · exact fun _ same => absurd same escape
    · exact escape

theorem echo_verbatim (s : Session) {text : String} (verbatim : Verbatim text) :
    s.echo [text] = s.print (Escape.bytesOf text ++ [10]) := by
  have read : Escape.unescape false text = ⟨Text.Utf8.encode text.toList, false⟩ :=
    unescapeWithin_of_notMem verbatim.1 _ (by simp [String.length_toList])
  unfold Session.echo
  split
  rename_i line ending parts
  split at parts
  · rename_i same
    cases same
    exact absurd rfl verbatim.2
  · cases parts
    simp [read, Escape.bytesOf]

/-- A shell that runs one command after the other, without options, functions, traps and jobs. What it has
written stands with the last part first. -/
structure Ready (s : Session) (written : List (List UInt8)) : Prop where
  options : s.options = []
  routines : s.routines = []
  traps : s.traps = []
  pending : s.pending = []
  jobs : s.jobs = []
  streams : s.streams = [(0, 0), (1, 1), (2, 2)]
  channels : s.channels = [(2, .collected []), (1, .collected written), (0, .sink)]
  free : s.isFixed "id" = false
  status : s.status = 0
  flow : s.flow = .going

namespace Ready

variable {s t : Session} {written : List (List UInt8)}

theorem start (files : FileTree) (name : String) (arguments : List String) :
    Ready (Session.start files name arguments) [] :=
  ⟨rfl, rfl, rfl, rfl, rfl, rfl, rfl, rfl, rfl, rfl⟩

theorem elsewhere (ready : Ready s written) (name : String) (arguments : List String) (line : Nat)
    (command : Option String) (loops innerStatus : Nat) :
    Ready { s with name, arguments, line, command, loops, innerStatus } written :=
  ⟨ready.options, ready.routines, ready.traps, ready.pending, ready.jobs, ready.streams, ready.channels,
    ready.free, ready.status, ready.flow⟩

theorem isSet_eq_false (ready : Ready s written) (letter : Char) : s.isSet letter = false := by
  simp [Session.isSet, ready.options]

theorem print (ready : Ready s written) (bytes : List UInt8) : Ready (s.print bytes) (bytes :: written) := by
  have wrote : s.write? 1 bytes = some (s.setChannel 1 (.collected (bytes :: written))) := by
    simp [Session.write?, Session.channel?, ready.streams, ready.channels, List.lookup_cons]
  unfold Session.print
  rw [wrote]
  refine { ready with status := rfl, channels := ?_ }
  simp [Session.ended, Session.setChannel, ready.channels]

theorem withStreams (ready : Ready t written) (before : s.channels.head?.map Prod.fst = some 2) :
    Ready (t.withStreams s []) written := by
  refine { ready with streams := ?_, channels := ?_ }
  · simp [Session.withStreams, ready.streams]
  · simp [Session.withStreams, ready.channels, before]

theorem assign (ready : Ready s written) (text : String) :
    Ready (s.assign "id" text) written ∧ (s.assign "id" text).value? "id" = some text := by
  have other : ("id" = "OPTIND") = False := by decide
  have free := ready.free
  unfold Session.isFixed at free
  have kept : ((s.assigned.lookup "id").getD ⟨none, false, false⟩).fixed = false := by
    cases found : s.assigned.lookup "id" with
    | none => rfl
    | some v => simpa [found] using free
  unfold Session.assign
  rw [ready.free, if_neg Bool.false_ne_true]
  unfold Session.put
  simp only [other, if_false]
  refine ⟨{ ready with free := ?_ }, ?_⟩
  · simp [Session.isFixed, Session.setVariable, kept]
  · simp [Session.value?, Session.setVariable]

theorem answered (ready : Ready s written) (fuel : Nat) (tested : Bool) :
    answer (fuel + 1) (s.checked tested) = s := by
  have checked : s.checked tested = s := by simp [Session.checked, ready.isSet_eq_false]
  rw [checked, answer, ready.flow, ready.pending]

theorem turn (ready : Ready s written) : s.turn = (true, s) := by
  rw [Session.turn, ready.flow]

theorem finish (ready : Ready s written) (fuel : Nat) : Ready (finish (fuel + 1) s) written := by
  have quiet : s.traps.lookup 0 = none := by
    rw [ready.traps]
    rfl
  rw [Shell.finish, ready.flow, quiet]
  unfold Session.settleAll
  rw [ready.jobs]
  exact { ready with jobs := rfl }

theorem finished (ready : Ready s written) : s.finished = ⟨written.reverse.flatten, [], .code 0⟩ := by
  simp [Session.finished, Session.collected, ready.channels, ready.flow, ready.status, List.lookup_cons]

theorem echo (ready : Ready s written) (fuel : Nat) (tested : Bool) {text : String}
    (verbatim : Verbatim text) :
    Ready (call (fuel + 1) tested false ["echo", text] s) ((Escape.bytesOf text ++ [10]) :: written) := by
  have special : specialBuiltins.contains "echo" = false := by decide
  have plain : plainBuiltins.contains "echo" = true := by decide
  have undefined : s.routines.lookup "echo" = none := by
    rw [ready.routines]
    rfl
  have inner := ready.elsewhere s.name s.arguments s.line (some "echo") s.loops s.innerStatus
  have wrote := inner.print (Escape.bytesOf text ++ [10])
  rw [← echo_verbatim _ verbatim] at wrote
  have called : call (fuel + 1) tested false ["echo", text] s =
      { Session.echo { s with command := some "echo" } [text] with command := s.command } := by
    rw [call, special, if_neg Bool.false_ne_true, if_neg Bool.false_ne_true, undefined, plain]
    have built : ∀ t : Session, t.builtin? "echo" [text] = some (t.echo [text]) := fun _ => rfl
    simp [Session.about, built, Session.recovered, wrote.flow]
  rw [called]
  exact wrote.elsewhere _ _ _ s.command _ _

/-- One turn of the loop writes the value and the end of a line. -/
theorem run_echoId (ready : Ready s written) (fuel : Nat) {text : String} (verbatim : Verbatim text)
    (given : s.value? "id" = some text) :
    Ready (run (fuel + 8) false echoId s) ((Escape.bytesOf text ++ [10]) :: written) := by
  have here := ready.elsewhere s.name s.arguments 1 s.command s.loops 0
  have expanded := expandWords_echo (s := { s with line := 1, innerStatus := 0 }) fuel given here.flow
  have ran := runSimple_plain (fuel + 5) false (p := ⟨1, [], _, []⟩) rfl rfl expanded here.flow
    (here.isSet_eq_false 'x') (by simp) (by simp)
  have back := (here.echo (fuel + 5) false verbatim).withStreams (s := { s with line := 1, innerStatus := 0 })
    (by simp [ready.channels])
  rw [echoId, run, ready.isSet_eq_false, if_neg Bool.false_ne_true, ran, back.answered]
  exact back

theorem eachOf (ready : Ready s written) {texts : List String} (verbatim : ∀ text ∈ texts, Verbatim text)
    {fuel : Nat} (enough : texts.length + 8 < fuel) :
    Ready (eachOf fuel false "id" texts echoId s)
      ((texts.map fun text => Escape.bytesOf text ++ [10]).reverse ++ written) := by
  induction texts generalizing fuel s written with
  | nil =>
    obtain ⟨fuel, rfl⟩ : ∃ fewer, fuel = fewer + 1 := ⟨fuel - 1, by omega⟩
    rw [Shell.eachOf]
    exact ready
  | cons text texts ih =>
    obtain ⟨first, others⟩ := List.forall_mem_cons.mp verbatim
    rw [List.length_cons] at enough
    obtain ⟨fuel, rfl⟩ : ∃ fewer, fuel = fewer + 9 := ⟨fuel - 9, by omega⟩
    obtain ⟨assigned, given⟩ := ready.assign text
    have wrote := assigned.run_echoId fuel first given
    have rest := ih wrote others (by omega : texts.length + 8 < fuel + 8)
    rw [Shell.eachOf, Session.next, if_pos assigned.flow, wrote.turn]
    simpa using rest

theorem run_listing (ready : Ready s written) (verbatim : ∀ text ∈ s.arguments, Verbatim text) {fuel : Nat}
    (enough : s.arguments.length + 9 < fuel) :
    Ready (run fuel false listing s)
      ((s.arguments.map fun text => Escape.bytesOf text ++ [10]).reverse ++ written) := by
  obtain ⟨fuel, rfl⟩ : ∃ fewer, fuel = fewer + 6 := ⟨fuel - 6, by omega⟩
  have here := ready.elsewhere s.name s.arguments 1 s.command s.loops s.innerStatus
  have inside := ready.elsewhere s.name s.arguments 1 s.command (s.loops + 1) s.innerStatus
  have undeclared : some false ≠ some true := by simp
  have expanded := expandWords_arguments fuel undeclared here.flow
  rw [listing, run, ready.isSet_eq_false, if_neg Bool.false_ne_true]
  dsimp only
  rw [expanded]
  dsimp only
  rw [Session.next, if_pos here.flow]
  split
  · rename_i none
    rw [none]
    exact { here with status := rfl }
  · have ran := inside.eachOf verbatim (by omega : s.arguments.length + 8 < fuel + 5)
    exact ran.elsewhere _ _ _ _ s.loops _

theorem lines_listing (ready : Ready s written) (verbatim : ∀ text ∈ s.arguments, Verbatim text)
    {fuel : Nat} (enough : s.arguments.length + 10 < fuel) :
    Ready (lines fuel false (tokensFrom 1 listingScript.toList) s)
      ((s.arguments.map fun text => Escape.bytesOf text ++ [10]).reverse ++ written) := by
  obtain ⟨fuel, rfl⟩ : ∃ fewer, fuel = fewer + 2 := ⟨fuel - 2, by omega⟩
  have ran := ready.run_listing verbatim (by omega : s.arguments.length + 9 < fuel + 1)
  have ended : nextLine [⟨1, .sign .finish⟩] = .ok none := rfl
  rw [lines, nextLine_listing]
  dsimp only
  rw [Session.next, if_pos ran.flow, lines, ended]
  exact ran

end Ready

theorem setUp_script {s : Session} {script : String} {c : Char} {cs : List Char}
    (spelled : script.toList = c :: cs) (no_option : c ≠ '-' ∧ c ≠ '+') (arguments : List String)
    (going : s.flow = .going) :
    Session.setUp (arguments.length + 3) false ("-c" :: script :: arguments) s =
      (true, script :: arguments, s) := by
  simp [Session.setUp, Session.setLetters, spelled, no_option, going]

/-- The script writes its arguments, each on a line of its own. -/
theorem start_listing (files : FileTree) (shell name : String) {texts : List String}
    (verbatim : ∀ text ∈ texts, Verbatim text) (few : texts.length + 12 < turnLimit) :
    ∃ after, start files shell ("-c" :: listingScript :: name :: texts) =
      (⟨texts.flatMap fun text => Escape.bytesOf text ++ [10], [], .code 0⟩, after) := by
  obtain ⟨fuel, turns⟩ : ∃ fuel, turnLimit = fuel + 2 := ⟨999998, rfl⟩
  have begun := Ready.start files shell []
  have spelled : listingScript.toList = 'f' :: listingScript.toList.drop 1 := rfl
  have going : Session.flow { Session.start files shell [] with line := 0 } = .going := rfl
  have options := setUp_script spelled (by decide) (name :: texts) going
  have ready := begun.elsewhere name texts 1 none 0 0
  have listed := (ready.lines_listing verbatim (by omega : texts.length + 10 < fuel + 1)).finish fuel
  have ran : Ready (Shell.shell turnLimit ("-c" :: listingScript :: name :: texts)
      (Session.start files shell [])) ((texts.map fun text => Escape.bytesOf text ++ [10]).reverse ++ []) := by
    rw [turns, Shell.shell, List.length_cons, List.length_cons, options]
    dsimp only
    rw [Session.next, if_pos going]
    exact listed
  refine ⟨(start files shell ("-c" :: listingScript :: name :: texts)).2, Prod.ext ?_ rfl⟩
  unfold start
  dsimp only
  rw [ran.finished, List.append_nil, List.reverse_reverse]
  rfl

end ContractRegistry.Shell
