import Mathlib.Tactic.Common
import ProseMath.CommandLine.Run
import ProseMath.Proofs.Command.Script
import ProseMath.Proofs.FileTree

/-!
# What converting a file changes

A conversion that fails leaves all files as they are. One that succeeds writes the file that the
settings ask for, and makes the directories above it that are missing.

* `Settings.exists_outputPath`: the result has a cleaned path.
* `run_readSource`: reading a source, which changes nothing.
* `run_convert_of_not_keeps`, `run_convert_of_keeps`: a conversion without and with a document to
  read.
* `convert_changes_output_only`: which files and directories a conversion changes.
-/

namespace ProseMath

theorem Settings.exists_outputPath (s : Settings) (input : Text) :
    ∃ p, s.outputPath input = Path.clean p := by
  rw [outputPath, Path.join]
  have hFirst : (if s.outputDirectory.isEmpty then Path.directory input
      else s.outputDirectory) ≠ [] := by
    split_ifs with hEmpty
    · exact Path.clean_ne_nil _
    · exact fun h => hEmpty (List.isEmpty_iff.mpr h)
  rw [if_neg (by rwa [List.isEmpty_iff])]
  exact ⟨_, rfl⟩

namespace Command

/-- A document that a file keeps. -/
def Keeps (files : FileTree) (p : Text) (d : Document) : Prop :=
  ∃ content, files.lookup p = .ok (.file content) ∧ Document.parse (Text.decode content) = .ok d

theorem run_readSource (p : Text) (w : World) :
    (readSource p : Action (StateM World) ByteArray).run.run w =
      match w.files.lookup p with
      | .ok (.file content) => (.ok content, w)
      | .ok .directory => (.error (.of (.inputIsDirectory p)), w)
      | .error reason =>
        (.error ⟨["could not open input".toList], .file ⟨.stat, p, reason⟩⟩, w) := by
  rw [readSource, Action.run_bind, Action.run_ofSystem, World.run_stat, FileTree.stat]
  rcases hLookup : w.files.lookup p with reason | _ | content
  · rfl
  · rfl
  · dsimp only [Except.mapError]
    rw [if_neg Bool.false_ne_true, Action.run_ofSystem, World.run_read, FileTree.read, hLookup]
    rfl

section

variable (settings : Settings) {log : Text → StateM World Unit} {input : Text} {w : World}
  (hLog : ∀ line w, ((log line).run w).2.files = w.files)

include hLog

/-- Without a document to read nothing is done to the files. -/
theorem run_convert_of_not_keeps (hNone : ∀ d, ¬ Keeps w.files input d) :
    ∃ f after, (convert settings log input).run.run w = (.error f, after) ∧
      after.files = w.files := by
  rw [convert, Action.run_bind, run_readSource]
  rcases hLookup : w.files.lookup input with reason | _ | content
  · exact ⟨_, w, rfl, rfl⟩
  · exact ⟨_, w, rfl, rfl⟩
  · dsimp only
    rw [Action.run_bind, Action.run_liftM]
    dsimp only
    rw [Action.run_bind, parseSource, Action.run_ofExcept]
    cases hParse : Document.parse (Text.decode content) with
    | error e => exact ⟨_, _, rfl, hLog _ w⟩
    | ok d => exact absurd ⟨content, hLookup, hParse⟩ (hNone d)

/-- A document that can be read is written, if its file can. -/
theorem run_convert_of_keeps {d : Document} (hKeeps : Keeps w.files input d) :
    ∃ latex between line, Latex.document settings.options d = .ok latex ∧
      between.files = w.files ∧ (convert settings log input).run.run w =
        match w.files.makeDirectories (Path.directory (settings.outputPath input)) with
        | .error e => (.error ⟨["could not create output directory".toList], .file e⟩, between)
        | .ok made =>
          match made.write (settings.outputPath input) (Text.encode latex) with
          | .error e =>
            (.error ⟨["could not write output".toList], .file e⟩, { between with files := made })
          | .ok written => (.ok (settings.outputPath input),
            ((log line).run { between with files := written }).2) := by
  obtain ⟨content, hLookup, hParse⟩ := hKeeps
  obtain ⟨s, hBody⟩ := Latex.exists_body hParse
  have hLatex := Latex.document_of_body settings.options hBody
  generalize _ ++ s ++ Latex.documentEnd = latex at hLatex
  let output := settings.outputPath input
  let readLine := "read ".toList ++ input ++ [' '] ++ Text.ofByteSize content.size
  let writtenLine := "wrote ".toList ++ output ++ " (".toList ++
    Text.ofByteSize (Text.encode latex).size ++ ", ".toList ++ Text.ofNat d.blocks.length ++
    " blocks)".toList
  refine ⟨latex, ((log readLine).run w).2, writtenLine, hLatex, hLog readLine w, ?_⟩
  rw [convert, Action.run_bind, run_readSource, hLookup]
  dsimp only
  rw [Action.run_bind, Action.run_liftM]
  dsimp only
  rw [Action.run_bind, parseSource, Action.run_ofExcept, hParse]
  dsimp only [Except.mapError]
  rw [Action.run_bind, Action.run_ofExcept, hLatex]
  dsimp only [Except.mapError]
  rw [Action.run_bind, Action.run_ofSystem, World.run_makeDirectories, hLog]
  cases w.files.makeDirectories (Path.directory (settings.outputPath input)) with
  | error e => rfl
  | ok made =>
    dsimp only [World.change, Except.mapError]
    rw [Action.run_bind, Action.run_ofSystem, World.run_write]
    dsimp only
    cases made.write (settings.outputPath input) (Text.encode latex) <;> rfl

end

theorem files_logLine (settings : Settings) (line : Text) (w : World) :
    ((CommandLine.logLine settings line : StateM World Unit).run w).2.files = w.files := by
  rw [CommandLine.logLine]
  split_ifs <;> rfl

/-- A world with an equation in one file and a parenthesis in another. -/
def sourceWorld : World :=
  { files := ⟨[(⟨.above 0, ["a.htex".toList]⟩, .file "y=1".toUTF8),
      (⟨.above 0, ["b".toList]⟩, .file ")".toUTF8)]⟩
    environment := []
    input := .ok .empty
    output := ⟨[], none⟩
    errors := []
    time := [] }

/-- Settings with a log and an output directory two levels down. -/
def loggedSettings : Settings :=
  { Settings.default with outputDirectory := "out/tex".toList, verbose := true }

/-- The log that goes with them. -/
def loggedLine : Text → StateM World Unit := CommandLine.logLine loggedSettings

/-- A conversion succeeds if there is a document to read and its file can be written. One that fails
leaves every file as it is, and everything if there is no document to read. One that succeeds puts
the document at the path that the settings ask for; all other files stay as they are, and all new
directories are above that path. -/
theorem convert_changes_output_only (settings : Settings) (log : Text → StateM World Unit)
    (hLog : ∀ line w, ((log line).run w).2.files = w.files) (input : Text) (w : World) :
    (∀ d latex made written, Keeps w.files input d →
      Latex.document settings.options d = .ok latex →
      w.files.makeDirectories (Path.directory (settings.outputPath input)) = .ok made →
      made.write (settings.outputPath input) (Text.encode latex) = .ok written →
      ∃ after, (convert settings log input).run.run w = (.ok (settings.outputPath input), after) ∧
        after.files = written) ∧
    (∀ f after, (convert settings log input).run.run w = (.error f, after) →
      (∀ place content, after.files.entry? place = some (.file content) ↔
        w.files.entry? place = some (.file content)) ∧
      ((∀ d, ¬ Keeps w.files input d) → after.files = w.files)) ∧
    ∀ output after, (convert settings log input).run.run w = (.ok output, after) →
      output = settings.outputPath input ∧
      (∃ d latex, Keeps w.files input d ∧ Latex.document settings.options d = .ok latex ∧
        after.files.lookup output = .ok (.file (Text.encode latex)) ∧
        after.files.entry? (.ofPath output) = some (.file (Text.encode latex))) ∧
      ∀ place ≠ .ofPath output, after.files.entry? place = w.files.entry? place ∨
        w.files.entry? place = none ∧ after.files.entry? place = some .directory ∧
          place.IsAbove (.ofPath output) := by
  constructor
  · intro d latex made written hKeeps hLatex hMade hWritten
    obtain ⟨_, between, line, hSame, _, hRun⟩ := run_convert_of_keeps settings hLog hKeeps
    cases hLatex.symm.trans hSame
    rw [hMade] at hRun
    dsimp only at hRun
    rw [hWritten] at hRun
    exact ⟨_, hRun, hLog line _⟩
  by_cases hKeeps : ∃ d, Keeps w.files input d
  · obtain ⟨d, hKeeps⟩ := hKeeps
    obtain ⟨latex, between, line, hLatex, hFiles, hRun⟩ := run_convert_of_keeps settings hLog hKeeps
    obtain ⟨p, hOutput⟩ := settings.exists_outputPath input
    rw [hRun, hOutput]
    cases hMade : w.files.makeDirectories (Path.directory (Path.clean p)) with
    | error e =>
      refine ⟨?_, nofun⟩
      intro f after h
      cases h
      exact ⟨fun place content => by rw [hFiles], fun _ => hFiles⟩
    | ok made =>
      have hGrows := FileTree.makeDirectories_grows hMade
      dsimp only
      cases hWritten : made.write (Path.clean p) (Text.encode latex) with
      | error e =>
        refine ⟨?_, nofun⟩
        intro f after h
        cases h
        exact ⟨hGrows.file_iff, fun hNone => absurd hKeeps (hNone d)⟩
      | ok written =>
        refine ⟨nofun, ?_⟩
        intro output after h
        cases h
        obtain ⟨hCan, rfl⟩ := FileTree.write_eq_ok_iff.mp hWritten
        rw [hLog]
        refine ⟨rfl, ⟨d, latex, hKeeps, hLatex, hCan.lookup_insert _, ?_⟩, ?_⟩
        · rw [hCan.entry?_insert, if_pos rfl]
        · intro place hPlace
          rw [hCan.entry?_insert, if_neg hPlace]
          exact (hGrows place).imp_right fun ⟨hFree, hNew, hAbove⟩ =>
            ⟨hFree, hNew, hAbove.resolve_left hPlace⟩
  · obtain ⟨f, after, hRun, hFiles⟩ :=
      run_convert_of_not_keeps settings hLog (not_exists.mp hKeeps)
    rw [hRun]
    refine ⟨?_, nofun⟩
    intro _ _ h
    cases h
    exact ⟨fun place content => by rw [hFiles], fun _ => hFiles⟩

/-- The equation is written two directories down and the other file stays; a file without a document
leaves all as it is. -/
theorem convert_changes_output_only_equation :
    (∃ latex after, (convert loggedSettings loggedLine "a.htex".toList).run.run sourceWorld =
        (.ok "out/tex/a.tex".toList, after) ∧
      after.files.lookup "out/tex/a.tex".toList = .ok (.file (Text.encode latex)) ∧
      after.files.entry? ⟨.above 0, ["b".toList]⟩ = some (.file ")".toUTF8)) ∧
    ∃ f after, (convert loggedSettings loggedLine "b".toList).run.run sourceWorld =
      (.error f, after) ∧ after.files = sourceWorld.files := by
  have hLog : ∀ line w, ((loggedLine line).run w).2.files = w.files := files_logLine loggedSettings
  have hKeeps : Keeps sourceWorld.files "a.htex".toList
      ⟨[.equation ⟨.identifier ['y'], .identifier ['1']⟩]⟩ :=
    ⟨"y=1".toUTF8, rfl, parse_decode_equation⟩
  have hNone : ∀ d, ¬ Keeps sourceWorld.files "b".toList d := by
    rintro d ⟨content, hLookup, hd⟩
    have hThere : sourceWorld.files.lookup "b".toList = .ok (.file ")".toUTF8) := rfl
    cases hThere.symm.trans hLookup
    cases parse_decode_close.symm.trans hd
  constructor
  · obtain ⟨latex, _, _, hLatex, _, _⟩ := run_convert_of_keeps loggedSettings hLog hKeeps
    have hOutput : loggedSettings.outputPath "a.htex".toList = "out/tex/a.tex".toList := rfl
    obtain ⟨made, written, hMade, hWritten⟩ : ∃ made written, sourceWorld.files.makeDirectories
          (Path.directory "out/tex/a.tex".toList) = .ok made ∧
        made.write "out/tex/a.tex".toList (Text.encode latex) = .ok written :=
      ⟨_, _, rfl, rfl⟩
    obtain ⟨hSucceeds, _, hChanges⟩ :=
      convert_changes_output_only loggedSettings loggedLine hLog "a.htex".toList sourceWorld
    rw [hOutput] at hSucceeds
    obtain ⟨after, hRun, _⟩ := hSucceeds _ latex made written hKeeps hLatex hMade hWritten
    obtain ⟨_, ⟨_, latex, _, _, hLookup, _⟩, hOther⟩ := hChanges _ after hRun
    refine ⟨latex, after, hRun, hLookup, ?_⟩
    have hPlace : Location.ofPath "out/tex/a.tex".toList =
        ⟨.above 0, ["out".toList, "tex".toList, "a.tex".toList]⟩ := rfl
    have hBefore : sourceWorld.files.entry? ⟨.above 0, ["b".toList]⟩ = some (.file ")".toUTF8) :=
      rfl
    rcases hOther ⟨.above 0, ["b".toList]⟩ (by rw [hPlace]; decide) with hSame | ⟨hFree, _⟩
    · rw [hSame, hBefore]
    · cases hBefore.symm.trans hFree
  · obtain ⟨f, after, hRun, _⟩ := run_convert_of_not_keeps loggedSettings hLog hNone
    obtain ⟨_, hFails, _⟩ :=
      convert_changes_output_only loggedSettings loggedLine hLog "b".toList sourceWorld
    exact ⟨f, after, hRun, (hFails f after hRun).2 hNone⟩

end Command

end ProseMath
