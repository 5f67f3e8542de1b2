import Mathlib.Tactic.Common
import ProseMath.Proofs.Command.History
import ProseMath.Proofs.Command.Script
import ProseMath.Proofs.FileTree

/-!
# Sessions one after another

A session handles its lines one by one. What it prints and reports for a line does not depend on the
other lines, and the history goes through all of them. The file of the history takes it to the next
session, so two sessions do the same as one on all their lines, one prompt aside.

* `run_enter`, `run_enterAll`: one line and all lines.
* `afterSession_eq`: a session with a history file.
* `stored_insert`: the history that the next session finds.
* `afterSession_append`: two sessions and one.
* `afterSession_append_loses_return`: why entries must not end in a carriage return.
-/

namespace ProseMath

namespace World

/-- The world after texts have been handed to its output one by one and something was reported. -/
def said (w : World) (texts : List Text) (report : Text) : World :=
  { w with
    output := texts.foldl (fun sink t => (take sink t).2) w.output
    errors := w.errors ++ report }

theorem files_said (w : World) (texts : List Text) (report : Text) :
    (w.said texts report).files = w.files := rfl

theorem said_said (w : World) (first second : List Text) (report more : Text) :
    (w.said first report).said second more = w.said (first ++ second) (report ++ more) := by
  simp only [said, List.foldl_append, List.append_assoc]

theorem said_nil (w : World) : w.said [] [] = w := by
  simp only [said, List.foldl_nil, List.append_nil]

theorem run_print_said (t : Text) (w : World) :
    (Host.print t : StateM World Bool).run w = ((take w.output t).1, w.said [t] []) := by
  simp only [said, List.append_nil]
  rfl

theorem written_said {w : World} (h : w.output.remaining = none) (texts : List Text)
    (report : Text) : (w.said texts report).output = ⟨w.output.written ++ texts.flatten, none⟩ := by
  obtain ⟨files, environment, input, ⟨written, remaining⟩, errors, time⟩ := w
  cases h
  induction texts generalizing written with
  | nil => exact congrArg (Latex.Sink.mk · none) (List.append_nil written).symm
  | cons t texts ih =>
    rw [List.flatten_cons, ← List.append_assoc]
    exact ih (written ++ t)

end World

namespace Command

/-! ## Lines -/

/-- The texts that are printed for a line. -/
def answers (line : List UInt8) : List Text :=
  let t := Text.decode ⟨line.toArray⟩
  if (Text.trim t).isEmpty then []
  else
    match fragment t with
    | .ok latex => [latex]
    | .error _ => []

/-- What is reported for a line. -/
def complaint (line : List UInt8) : Text :=
  let t := Text.decode ⟨line.toArray⟩
  if (Text.trim t).isEmpty then []
  else
    match fragment t with
    | .ok _ => []
    | .error f => f.message ++ ['\n']

/-- The history with a line, unless it is blank. -/
def History.record (h : History) (line : List UInt8) : History :=
  if (Text.trim (Text.decode ⟨line.toArray⟩)).isEmpty then h else h.add line

/-- The texts that are printed for some lines, each behind its prompt. -/
def transcript (lines : List (List UInt8)) : List Text :=
  lines.flatMap fun line => prompt :: answers line

theorem transcript_append (first second : List (List UInt8)) :
    transcript (first ++ second) = transcript first ++ transcript second := List.flatMap_append

theorem transcript_cons (line : List UInt8) (lines : List (List UInt8)) :
    transcript (line :: lines) = prompt :: answers line ++ transcript lines := List.flatMap_cons

theorem run_enter (h : History) (line : List UInt8) (w : World) :
    (enter h line : StateM World History).run w =
      (h.record line, w.said (answers line) (complaint line)) := by
  unfold enter History.record answers complaint
  dsimp only
  split_ifs with hBlank
  · rw [World.said_nil]
    rfl
  · cases fragment (Text.decode ⟨line.toArray⟩) with
    | ok latex =>
      dsimp only
      rw [World.run_bind, World.run_print_said]
      rfl
    | error f => rfl

theorem run_enterAll (h : History) (lines : List (List UInt8)) (w : World) :
    (enterAll h lines : StateM World History).run w =
      (lines.foldl History.record h,
        w.said (transcript lines ++ [prompt]) (lines.flatMap complaint)) := by
  induction lines generalizing h w with
  | nil =>
    rw [enterAll, World.run_bind, World.run_print_said]
    rfl
  | cons line lines ih =>
    rw [enterAll, World.run_bind, World.run_print_said, World.run_bind, run_enter, ih,
      World.said_said, World.said_said]
    simp only [transcript_cons, List.flatMap_cons, List.foldl_cons, List.append_assoc,
      List.cons_append, List.nil_append]

/-! ## Sessions -/

/-- The file of the history in a home directory. -/
def historyFile (home : Text) : Text := Path.join home ".htex_history".toList

/-- The history that a file keeps; empty if it cannot be read. -/
def stored (files : FileTree) (p : Text) : History :=
  match files.read p with
  | .ok content => History.load content
  | .error _ => []

theorem run_historyPath? {w : World} {home : Text} (hHome : w.valueOf? "HOME".toList = some home)
    (hGiven : home ≠ []) :
    (historyPath? : StateM World (Option Text)).run w = (some (historyFile home), w) := by
  have hLookup : (Host.lookup "HOME".toList : StateM World Text).run w =
      ((w.valueOf? "HOME".toList).getD [], w) := rfl
  have hEmpty : ¬ home.isEmpty := by rwa [List.isEmpty_iff]
  rw [historyPath?, World.run_bind, Settings.home?, World.run_bind, hLookup, hHome]
  dsimp only [Option.getD_some]
  rw [if_neg hEmpty]
  rfl

theorem run_loadHistory (p : Text) (w : World) :
    (loadHistory (some p) : StateM World History).run w = (stored w.files p, w) := by
  rw [loadHistory, World.run_bind, World.run_read, stored]
  cases w.files.read p <;> rfl

/-- The world after a session on some lines. -/
def afterSession (w : World) (lines : List (List UInt8)) : World :=
  ((session (typed lines) : StateM World Unit).run w).2

section

variable {w : World} {home : Text} {lines : List (List UInt8)}
  (hHome : w.valueOf? "HOME".toList = some home) (hGiven : home ≠ [])
  (hCan : w.files.CanWrite (historyFile home)) (hLines : ∀ line ∈ lines, IsEntry line)

include hHome hGiven hCan hLines

/-- A session whose history has a file. -/
theorem afterSession_eq : afterSession w lines =
    { w.said (transcript lines ++ [prompt]) (lines.flatMap complaint) with
      files := w.files.insert (.ofPath (historyFile home)) (.file
        (lines.foldl History.record (stored w.files (historyFile home))).save) } := by
  have hPieces : (pieces (typed lines)).map Piece.bytes = lines := by
    rw [pieces_typed hLines, List.map_map]
    exact List.map_id lines
  rw [afterSession, session, World.run_bind, run_historyPath? hHome hGiven, World.run_bind,
    run_loadHistory, World.run_bind, hPieces, run_enterAll]
  dsimp only
  rw [saveHistory, World.run_bind, World.run_write, World.files_said, hCan.write]
  rfl

theorem files_afterSession : (afterSession w lines).files =
    w.files.insert (.ofPath (historyFile home)) (.file
      (lines.foldl History.record (stored w.files (historyFile home))).save) := by
  rw [afterSession_eq hHome hGiven hCan hLines]

/-- The history of one session can be written again by the next. -/
theorem canWrite_afterSession : (afterSession w lines).files.CanWrite (historyFile home) := by
  rw [files_afterSession hHome hGiven hCan hLines]
  exact hCan.insert _

theorem errors_afterSession :
    (afterSession w lines).errors = w.errors ++ lines.flatMap complaint := by
  rw [afterSession_eq hHome hGiven hCan hLines]
  rfl

theorem valueOf?_afterSession (name : Text) :
    (afterSession w lines).valueOf? name = w.valueOf? name := by
  rw [afterSession_eq hHome hGiven hCan hLines]
  rfl

theorem output_afterSession (hOpen : w.output.remaining = none) : (afterSession w lines).output =
    ⟨w.output.written ++ (transcript lines).flatten ++ prompt, none⟩ := by
  rw [afterSession_eq hHome hGiven hCan hLines]
  dsimp only
  rw [World.written_said hOpen, List.flatten_concat, List.append_assoc]

end

/-! ## The history between two sessions -/

theorem stored_insert {files : FileTree} {p : Text} (hCan : files.CanWrite p) {h : History}
    (hKept : h.Kept) : stored (files.insert (.ofPath p) (.file h.save)) p = h := by
  rw [stored, hCan.read_insert]
  exact History.load_save hKept

theorem kept_stored {files : FileTree} {p : Text}
    (h : ∀ line ∈ stored files p, line.getLast? ≠ some carriageReturn) :
    (stored files p).Kept := by
  rw [stored] at h ⊢
  cases hRead : files.read p with
  | error e => exact .nil
  | ok content =>
    rw [hRead] at h
    exact History.kept_load h

theorem kept_foldl_record {h : History} (hKept : h.Kept) {lines : List (List UInt8)}
    (hLines : ∀ line ∈ lines, IsEntry line) : (lines.foldl History.record h).Kept := by
  induction lines generalizing h with
  | nil => exact hKept
  | cons line lines ih =>
    rw [List.forall_mem_cons] at hLines
    refine ih ?_ hLines.2
    rw [History.record]
    split_ifs
    · exact hKept
    · exact hKept.add hLines.1

theorem answers_of_error {line : List UInt8} {f : Failure}
    (h : fragment (Text.decode ⟨line.toArray⟩) = .error f) : answers line = [] := by
  rw [answers, h]
  exact ite_self []

/-- A world with a history in the working directory, which is the home directory. -/
def historyWorld (content : ByteArray) : World :=
  { files := ⟨[(⟨.above 0, [".htex_history".toList]⟩, .file content)]⟩
    environment := [("HOME".toList, ['.'])]
    input := .ok .empty
    output := ⟨[], none⟩
    errors := []
    time := [] }

theorem write_historyWorld (content : ByteArray) :
    ∃ other after, (historyWorld content).files.write (historyFile ['.']) other = .ok after :=
  ⟨.empty, _, rfl⟩

/-- Two sessions leave the files and reports that one session on all their lines leaves, and print
what it prints with one prompt more, where the first of them ends. For a line that cannot be
converted the prompt is all that is printed, whatever the other lines are. -/
theorem afterSession_append (w : World) (home : Text) (first second : List (List UInt8))
    (hHome : w.valueOf? "HOME".toList = some home) (hGiven : home ≠ [])
    (hWritable : ∃ content after, w.files.write (historyFile home) content = .ok after)
    (hLines : ∀ line ∈ first ++ second, IsEntry line)
    (hReturn : ∀ line ∈ stored w.files (historyFile home), line.getLast? ≠ some carriageReturn) :
    (afterSession (afterSession w first) second).files = (afterSession w (first ++ second)).files ∧
    (afterSession (afterSession w first) second).errors =
      (afterSession w (first ++ second)).errors ∧
    (afterSession w (first ++ second)).errors =
      w.errors ++ (first ++ second).flatMap complaint ∧
    (w.output.remaining = none →
      (afterSession (afterSession w first) second).output.written = w.output.written ++
        (transcript first).flatten ++ prompt ++ (transcript second).flatten ++ prompt ∧
      (afterSession w (first ++ second)).output.written = w.output.written ++
        (transcript first).flatten ++ (transcript second).flatten ++ prompt ∧
      ∀ before line after f, first ++ second = before ++ line :: after →
        fragment (Text.decode ⟨line.toArray⟩) = .error f →
        (afterSession w (first ++ second)).output.written = w.output.written ++
          (transcript before).flatten ++ prompt ++ (transcript after).flatten ++ prompt) := by
  obtain ⟨_, _, hWritten⟩ := hWritable
  have hCan := (FileTree.write_eq_ok_iff.mp hWritten).1
  have hFirst : ∀ line ∈ first, IsEntry line := fun line hLine =>
    hLines line (List.mem_append_left second hLine)
  have hSecond : ∀ line ∈ second, IsEntry line := fun line hLine =>
    hLines line (List.mem_append_right first hLine)
  have hKept := kept_foldl_record (kept_stored hReturn) hFirst
  have hFiles := files_afterSession hHome hGiven hCan hFirst
  have hHome' := (valueOf?_afterSession hHome hGiven hCan hFirst _).trans hHome
  have hCan' := canWrite_afterSession hHome hGiven hCan hFirst
  refine ⟨?_, ?_, errors_afterSession hHome hGiven hCan hLines, fun hOpen => ⟨?_, ?_, ?_⟩⟩
  · rw [files_afterSession hHome' hGiven hCan' hSecond, hFiles, stored_insert hCan hKept,
      FileTree.insert_insert, ← List.foldl_append, files_afterSession hHome hGiven hCan hLines]
  · rw [errors_afterSession hHome' hGiven hCan' hSecond,
      errors_afterSession hHome hGiven hCan hFirst, errors_afterSession hHome hGiven hCan hLines,
      List.flatMap_append, List.append_assoc]
  · have hOutput := output_afterSession hHome hGiven hCan hFirst hOpen
    rw [output_afterSession hHome' hGiven hCan' hSecond (by rw [hOutput]), hOutput]
  · rw [output_afterSession hHome hGiven hCan hLines hOpen, transcript_append, List.flatten_append,
      ← List.append_assoc]
  · intro before line after f hSplit hError
    rw [output_afterSession hHome hGiven hCan hLines hOpen, hSplit, transcript_append,
      transcript_cons, answers_of_error hError]
    simp only [List.flatten_append, List.flatten_cons, List.flatten_nil, List.append_assoc,
      List.append_nil]

/-- An equation in the first session and a parenthesis in the second, which cannot be converted. -/
theorem afterSession_append_two_lines :
    (afterSession (afterSession (historyWorld ⟨#[97, 10]⟩) [[121, 61, 49]]) [[41]]).files =
      (afterSession (historyWorld ⟨#[97, 10]⟩) ([[121, 61, 49]] ++ [[41]])).files ∧
    (afterSession (afterSession (historyWorld ⟨#[97, 10]⟩) [[121, 61, 49]]) [[41]]).output.written =
      "htex> \\[y = 1\\]\n\nhtex> htex> htex> ".toList ∧
    (afterSession (historyWorld ⟨#[97, 10]⟩) ([[121, 61, 49]] ++ [[41]])).output.written =
      "htex> \\[y = 1\\]\n\nhtex> htex> ".toList := by
  have hLines : ∀ line ∈ [[121, 61, 49]] ++ [[41]], IsEntry line := by
    simp only [List.cons_append, List.nil_append, List.forall_mem_cons]
    exact ⟨⟨by decide, by decide, by decide, by decide⟩,
      ⟨by decide, by decide, by decide, by decide⟩, by simp⟩
  have hReturn : ∀ line ∈ stored (historyWorld ⟨#[97, 10]⟩).files (historyFile ['.']),
      line.getLast? ≠ some carriageReturn := by
    have hStored : stored (historyWorld ⟨#[97, 10]⟩).files (historyFile ['.']) = [[97]] := by
      decide +kernel
    rw [hStored]
    decide
  obtain ⟨hFiles, _, _, hOutput⟩ := afterSession_append (historyWorld ⟨#[97, 10]⟩) ['.']
    [[121, 61, 49]] [[41]] rfl (by simp) (write_historyWorld _) hLines hReturn
  obtain ⟨hTwo, hAll, _⟩ := hOutput rfl
  have hFragment : fragment (Text.decode ⟨[121, 61, 49].toArray⟩) =
      .ok "\\[y = 1\\]\n\n".toList := fragment_equation
  have hError : fragment (Text.decode ⟨[41].toArray⟩) =
      .error ⟨[], .source ⟨.unexpectedClose, some 0⟩⟩ := fragment_close
  have hBlank : (Text.trim (Text.decode ⟨[121, 61, 49].toArray⟩)).isEmpty = false := by
    decide +kernel
  have hFirst : transcript [[121, 61, 49]] = [prompt, "\\[y = 1\\]\n\n".toList] := by
    rw [transcript_cons, answers, hFragment, hBlank]
    rfl
  have hSecond : transcript [[41]] = [prompt] := by
    rw [transcript_cons, answers_of_error hError]
    rfl
  rw [hFirst, hSecond] at hTwo hAll
  exact ⟨hFiles, hTwo, hAll⟩

/-- A carriage return at the end of an entry is saved by the first session and lost by the second,
so two sessions without lines do not leave the history that one leaves. -/
theorem afterSession_append_loses_return :
    (historyWorld ⟨#[97, 13, 13, 10]⟩).valueOf? "HOME".toList = some ['.'] ∧
    (∃ content after, (historyWorld ⟨#[97, 13, 13, 10]⟩).files.write (historyFile ['.']) content =
      .ok after) ∧
    (afterSession (historyWorld ⟨#[97, 13, 13, 10]⟩) ([] ++ [])).files.read (historyFile ['.']) =
      .ok ⟨#[97, 13, 10]⟩ ∧
    (afterSession (afterSession (historyWorld ⟨#[97, 13, 13, 10]⟩) []) []).files.read
      (historyFile ['.']) = .ok ⟨#[97, 10]⟩ := by
  have hHome : (historyWorld ⟨#[97, 13, 13, 10]⟩).valueOf? "HOME".toList = some ['.'] := rfl
  have hGiven : ['.'] ≠ [] := by simp
  have hWritable := write_historyWorld ⟨#[97, 13, 13, 10]⟩
  have hNone : ∀ line ∈ ([] : List (List UInt8)), IsEntry line := by simp
  refine ⟨hHome, hWritable, ?_⟩
  obtain ⟨_, _, hWritten⟩ := hWritable
  have hCan := (FileTree.write_eq_ok_iff.mp hWritten).1
  have hStored : stored (historyWorld ⟨#[97, 13, 13, 10]⟩).files (historyFile ['.']) =
      [[97, 13]] := by decide +kernel
  have hFiles := files_afterSession hHome hGiven hCan hNone
  rw [hStored] at hFiles
  have hHome' := (valueOf?_afterSession hHome hGiven hCan hNone _).trans hHome
  have hCan' := canWrite_afterSession hHome hGiven hCan hNone
  have hStored' : stored (afterSession (historyWorld ⟨#[97, 13, 13, 10]⟩) []).files
      (historyFile ['.']) = [[97]] := by
    rw [hFiles, stored, hCan.read_insert]
    decide +kernel
  constructor
  · rw [List.append_nil, hFiles, hCan.read_insert]
    rfl
  · rw [files_afterSession hHome' hGiven hCan' hNone, hCan'.read_insert, hStored']
    rfl

end Command

end ProseMath
