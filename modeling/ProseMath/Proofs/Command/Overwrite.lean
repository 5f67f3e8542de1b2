import Mathlib.Tactic.Common
import ProseMath.Proofs.Command.Convert
import ProseMath.Proofs.FileTree.Clean

/-!
# When a conversion overwrites its source

The result of a conversion has the name of the source with another extension. Without an output
directory it stands next to the source. If the extension is the one the source has already, the
result is written over the source; otherwise the source stays as it is, whatever comes of the
conversion.

* `Settings.outputPath_eq_clean_iff`: the path of the result.
* `Command.run_convert_over`: a conversion whose result has the path of its source.
* `Command.lookup_convert_beside`: a conversion whose result has another path.
* `Command.convert_overwrites_source_iff`: both.
-/

namespace ProseMath

/-- A source has the path of its result if it has the extension of results. -/
theorem Settings.outputPath_eq_clean_iff (s : Settings) (hDirectory : s.outputDirectory = [])
    (hSlash : '/' ∉ s.extension) {input : Text} (hInput : Path.IsName (Path.lastElement input)) :
    s.outputPath input = Path.clean input ↔ Path.extension input = s.extension := by
  have hWhole := Path.dropEnding_append (Path.extension_suffix input)
  generalize hStem :
    Path.dropEnding (Path.extension input) (Path.lastElement input) = stem at hWhole
  have hName : '/' ∉ stem ++ s.extension := by
    intro h
    rcases List.mem_append.mp h with hSlash' | hSlash'
    · exact hInput.not_slash (hWhole ▸ List.mem_append_left _ hSlash')
    · exact hSlash hSlash'
  rw [outputPath, Path.base_eq_lastElement hInput.not_nil, hStem, hDirectory, List.isEmpty_nil,
    if_pos rfl, Path.join_directory_eq_clean_iff hInput hName, ← hWhole, List.append_right_inj]
  exact eq_comm

namespace Command

section

variable {settings : Settings} {log : Text → StateM World Unit} {input : Text} {w : World}
  {content : ByteArray}

/-- A result with the path of its source is written over it. -/
theorem run_convert_over (hLog : ∀ line w, ((log line).run w).2.files = w.files)
    (hInput : Path.IsName (Path.lastElement input))
    (hPath : settings.outputPath input = Path.clean input)
    (hLookup : w.files.lookup input = .ok (.file content)) {d : Document}
    (hParse : Document.parse (Text.decode content) = .ok d) :
    ∃ latex after, Latex.document settings.options d = .ok latex ∧
      (convert settings log input).run.run w = (.ok (Path.clean input), after) ∧
      after.files.lookup input = .ok (.file (Text.encode latex)) := by
  obtain ⟨hLocate, hEntry⟩ := FileTree.lookup_eq_ok_iff.mp hLookup
  have hClean := FileTree.locate_clean hLocate
  have hPlace : Location.ofPath input = .ofPath (Path.clean input) :=
    FileTree.ofPath_of_locate hClean
  have hCan : w.files.CanWrite input := ⟨hLocate, by simp [hEntry], by simp [hEntry]⟩
  have hCanClean : w.files.CanWrite (Path.clean input) := by
    rw [hPlace] at hClean hEntry
    exact ⟨hClean, by simp [hEntry], by simp [hEntry]⟩
  have hMade := FileTree.makeDirectories_of_lookup (FileTree.lookup_directory_clean hLocate hInput)
  obtain ⟨latex, between, line, hLatex, _, hRun⟩ :=
    run_convert_of_keeps settings hLog ⟨content, hLookup, hParse⟩
  rw [hPath, hMade] at hRun
  dsimp only at hRun
  rw [hCanClean.write] at hRun
  refine ⟨latex, _, hLatex, hRun, ?_⟩
  rw [hLog, ← hPlace]
  exact hCan.lookup_insert _

/-- A result with another path leaves the source as it is, whether it can be written or not. -/
theorem lookup_convert_beside (hLog : ∀ line w, ((log line).run w).2.files = w.files)
    (hPath : settings.outputPath input ≠ Path.clean input)
    (hLookup : w.files.lookup input = .ok (.file content)) :
    ((convert settings log input).run.run w).2.files.lookup input = .ok (.file content) := by
  by_cases hKeeps : ∃ d, Keeps w.files input d
  · obtain ⟨d, hKeeps⟩ := hKeeps
    obtain ⟨latex, between, line, _, hFiles, hRun⟩ := run_convert_of_keeps settings hLog hKeeps
    obtain ⟨p, hOutput⟩ := settings.exists_outputPath input
    obtain ⟨hLocate, hEntry⟩ := FileTree.lookup_eq_ok_iff.mp hLookup
    rw [hRun, hOutput]
    cases hMade : w.files.makeDirectories (Path.directory (Path.clean p)) with
    | error e =>
      dsimp only
      rw [hFiles, hLookup]
    | ok made =>
      have hGrows := FileTree.makeDirectories_grows hMade
      have hMadeEntry := (hGrows.file_iff _ _).mpr hEntry
      have hMadeLookup : made.lookup input = .ok (.file content) :=
        FileTree.lookup_of_kept hGrows.directory hMadeEntry hLookup
      dsimp only
      cases hWritten : made.write (Path.clean p) (Text.encode latex) with
      | error e => exact hMadeLookup
      | ok written =>
        obtain ⟨hCan, rfl⟩ := FileTree.write_eq_ok_iff.mp hWritten
        have hOther : Location.ofPath input ≠ .ofPath (Path.clean p) := by
          rw [FileTree.ofPath_of_locate (FileTree.locate_clean hLocate)]
          exact fun h => hPath (hOutput.trans (Location.ofPath_clean_inj h).symm)
        dsimp only
        rw [hLog]
        refine FileTree.lookup_of_kept (hCan.directory_insert _) ?_ hMadeLookup
        rw [hCan.entry?_insert, if_neg hOther, hMadeEntry]
  · obtain ⟨f, after, hRun, hFiles⟩ :=
      run_convert_of_not_keeps settings hLog (not_exists.mp hKeeps)
    rw [hRun, hFiles, hLookup]

end

/-- Without an output directory, the result of a conversion has the path of its source exactly if
the source has the extension of results. Then a source that can be read is replaced by its own
result; otherwise it stays as it is. -/
theorem convert_overwrites_source_iff (settings : Settings)
    (hDirectory : settings.outputDirectory = []) (hSlash : '/' ∉ settings.extension) {input : Text}
    (hInput : Path.IsName (Path.lastElement input)) :
    (settings.outputPath input = Path.clean input ↔
      Path.extension input = settings.extension) ∧
    ∀ log : Text → StateM World Unit, (∀ line w, ((log line).run w).2.files = w.files) →
      ∀ (w : World) (content : ByteArray), w.files.lookup input = .ok (.file content) →
        (Path.extension input = settings.extension →
          ∀ d, Document.parse (Text.decode content) = .ok d →
            ∃ latex after, Latex.document settings.options d = .ok latex ∧
              (convert settings log input).run.run w = (.ok (Path.clean input), after) ∧
              after.files.lookup input = .ok (.file (Text.encode latex))) ∧
        (Path.extension input ≠ settings.extension →
          ((convert settings log input).run.run w).2.files.lookup input =
            .ok (.file content)) := by
  have hPath := settings.outputPath_eq_clean_iff hDirectory hSlash hInput
  refine ⟨hPath, fun log hLog w content hLookup => ⟨fun hSame d hParse => ?_, fun hOther => ?_⟩⟩
  · exact run_convert_over hLog hInput (hPath.mpr hSame) hLookup hParse
  · exact lookup_convert_beside hLog (fun h => hOther (hPath.mp h)) hLookup

/-- Settings whose results have the extension of the sources. -/
def sourceSettings : Settings := { Settings.default with extension := ".htex".toList }

/-- The equation is replaced by its result, or it stays next to it. -/
theorem convert_overwrites_source_iff_equation :
    (∃ latex after,
      (convert (m := StateM World) sourceSettings (CommandLine.logLine sourceSettings)
          ".//a.htex".toList).run.run sourceWorld = (.ok "a.htex".toList, after) ∧
        after.files.lookup ".//a.htex".toList = .ok (.file (Text.encode latex))) ∧
    ((convert (m := StateM World) .default (CommandLine.logLine .default)
      ".//a.htex".toList).run.run sourceWorld).2.files.lookup ".//a.htex".toList =
        .ok (.file "y=1".toUTF8) := by
  have hInput : Path.IsName (Path.lastElement ".//a.htex".toList) :=
    ⟨by decide, by decide, by decide, by decide⟩
  have hLookup : sourceWorld.files.lookup ".//a.htex".toList = .ok (.file "y=1".toUTF8) := rfl
  constructor
  · obtain ⟨_, hConvert⟩ := convert_overwrites_source_iff sourceSettings rfl (by decide) hInput
    obtain ⟨latex, after, _, hRun, hAfter⟩ :=
      (hConvert _ (files_logLine sourceSettings) sourceWorld _ hLookup).1 (by decide) _
        parse_decode_equation
    exact ⟨latex, after, hRun, hAfter⟩
  · obtain ⟨_, hConvert⟩ := convert_overwrites_source_iff .default rfl (by decide) hInput
    exact (hConvert _ (files_logLine .default) sourceWorld _ hLookup).2 (by decide)

end Command

end ProseMath
