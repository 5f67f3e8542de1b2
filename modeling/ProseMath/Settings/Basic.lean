import ProseMath.Latex.Document
import ProseMath.Path

/-!
# Settings

Where converted files go and what their preamble says.
-/

namespace ProseMath

/-- Formats of settings files. -/
inductive Format where
  | toml
  | yaml
deriving DecidableEq, Repr

namespace Format

/-- The name of a format. -/
def name : Format → String
  | .toml => "toml"
  | .yaml => "yaml"

/-- The format of a given number. -/
def ofNumber? (value : Int) : Option Format :=
  if value = 0 then some .toml else if value = 1 then some .yaml else none

/-- The format of a file, by the extension of its name; TOML unless it says otherwise. -/
def detect (path : Text) : Format :=
  let extension := Text.lower (Path.extension path)
  if extension = ".yaml".toList ∨ extension = ".yml".toList then .yaml else .toml

end Format

/-- Settings. -/
structure Settings where
  /-- The directory of converted files; empty means that of the source. -/
  outputDirectory : Text
  /-- The extension of converted files, with its point. -/
  extension : Text
  documentClass : Text
  packages : List Latex.Package
  verbose : Bool
deriving DecidableEq, Repr

/-- Settings as a file gives them, where most may be left out. -/
structure Draft where
  outputDirectory : Text
  extension : Text
  documentClass : Text
  packages : Option (List Latex.Package)
  verbose : Bool
deriving DecidableEq, Repr

namespace Draft

/-- Nothing given. -/
def empty : Draft := ⟨[], [], [], none, false⟩

/-- The extension that is given, with a point in front. -/
def pointedExtension (d : Draft) : Text :=
  match d.extension with
  | [] => ".tex".toList
  | c :: t => if c = '.' then c :: t else '.' :: c :: t

/-- The settings that are given, and the usual ones for the rest. -/
def complete (d : Draft) : Settings :=
  { outputDirectory := d.outputDirectory
    extension := d.pointedExtension
    documentClass := if d.documentClass.isEmpty then Latex.defaultClass else d.documentClass
    packages := d.packages.getD Latex.defaultPackages
    verbose := d.verbose }

end Draft

namespace Settings

/-- The settings that are taken where none are given. -/
def default : Settings := Draft.empty.complete

/-- What the preamble says. -/
def options (s : Settings) : Latex.Options := ⟨s.documentClass, s.packages⟩

/-- The file that a source is converted to: its name with another extension, in the output directory
or next to it. -/
def outputPath (s : Settings) (input : Text) : Text :=
  let name := Path.dropEnding (Path.extension input) (Path.base input) ++ s.extension
  Path.join (if s.outputDirectory.isEmpty then Path.directory input else s.outputDirectory) name

end Settings

end ProseMath
