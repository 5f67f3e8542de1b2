import Mathlib.Tactic.Common
import ProseMath.Proofs.FileTree
import ProseMath.Proofs.Host
import ProseMath.Settings.Load

/-!
# Which settings file is read

The usual settings files are looked for by their names, but a file is read under the name that is
left when references to environment variables in it have been replaced. Both are the same file
where the home directory has no dollar sign in its name.

* `Environment.template_of_not_mem`: a text without references.
* `Settings.run_load`, `Settings.run_firstExisting`: reading a file and looking for one.
* `Settings.run_loadFromEnvironment`, `Settings.run_loadFromEnvironment_of_split`: both, when no
  variable names a file.
* `Settings.loadFromEnvironment_of_first`: the file that is found.
-/

namespace ProseMath

/-! ## References -/

theorem Environment.template_of_not_mem {t : Text} (h : '$' ∉ t) : template t = t.map .text := by
  induction t with
  | nil => rw [template, List.map_nil]
  | cons c t ih =>
    rw [List.mem_cons, not_or] at h
    rw [template, if_neg (Ne.symm h.1), ih h.2, List.map_cons]

namespace World

/-- A text with its references replaced by the values of variables. -/
def expand (w : World) (t : Text) : Text :=
  (Environment.template t).flatMap fun part =>
    match part with
    | .text c => [c]
    | .reference name => (w.valueOf? name).getD []

/-- The usual settings files. -/
def searchPaths (w : World) : List Text :=
  ((Settings.searchPaths : StateM World (List Text)).run w).1

theorem expand_of_not_mem (w : World) {t : Text} (h : '$' ∉ t) : w.expand t = t := by
  rw [expand, Environment.template_of_not_mem h, List.flatMap_map]
  exact List.flatMap_singleton' t

theorem valueOf?_congr {w other : World} (h : other.environment = w.environment) (name : Text) :
    other.valueOf? name = w.valueOf? name := by
  rw [valueOf?, valueOf?, h]

theorem expand_congr {w other : World} (h : other.environment = w.environment) (t : Text) :
    other.expand t = w.expand t := by
  simp only [expand, valueOf?_congr h]

/-- Steps that only look at the world, one behind the other. -/
theorem run_mapM {α β : Type} {f : α → StateM World β} {g : α → β} {w : World}
    (h : ∀ a, (f a).run w = (g a, w)) (list : List α) : (list.mapM f).run w = (list.map g, w) := by
  induction list with
  | nil => rfl
  | cons a list ih =>
    rw [List.mapM_cons, run_bind, h]
    dsimp only
    rw [run_bind, ih]
    rfl

theorem run_expand (t : Text) (w : World) :
    (Environment.expand Host.lookup t : StateM World Text).run w = (w.expand t, w) := by
  rw [Environment.expand, run_bind, run_mapM (g := fun part =>
    match part with
    | .text c => [c]
    | .reference name => (w.valueOf? name).getD [])]
  · rw [expand, List.flatMap_def]
    rfl
  · rintro (_ | _) <;> rfl

end World

namespace Settings

/-! ## Reading -/

theorem run_parse (format : Format) (content : ByteArray) (w : World) :
    (parse format content : Action (StateM World) Settings).run.run w =
      (match Draft.decode? ((tomlVersion : StateM World Toml.Version).run w).1 format content with
      | none => .error (.of (.settings format))
      | some draft =>
        .ok { draft.complete with outputDirectory := w.expand draft.complete.outputDirectory },
      w) := by
  rw [parse, Action.run_bind, Action.run_liftM]
  dsimp only
  cases Draft.decode? ((tomlVersion : StateM World Toml.Version).run w).1 format content with
  | none => rfl
  | some draft =>
    dsimp only
    rw [Action.run_bind, Action.run_liftM, World.run_expand]
    rfl

/-- The settings in a content depend on the environment, but not on the files. -/
theorem run_parse_congr {w other : World} (h : other.environment = w.environment) (format : Format)
    (content : ByteArray) :
    (parse format content : Action (StateM World) Settings).run.run w =
      (((parse format content : Action (StateM World) Settings).run.run other).1, w) := by
  have hVersion : ((tomlVersion : StateM World Toml.Version).run other).1 =
      ((tomlVersion : StateM World Toml.Version).run w).1 :=
    congrArg (fun value : Option Text => if value.isSome then Toml.Version.v11 else .v10)
      (World.valueOf?_congr h _)
  rw [run_parse, run_parse, hVersion]
  simp only [World.expand_congr h]

theorem run_load (p : Text) (w : World) :
    (load p : Action (StateM World) Settings).run.run w =
      match w.files.read (w.expand p) with
      | .ok content =>
        (parse (Format.detect (w.expand p)) content : Action (StateM World) Settings).run.run w
      | .error e => (.error ⟨["failed to read config".toList], .file e⟩, w) := by
  rw [load, Action.run_bind, Action.run_liftM, World.run_expand]
  dsimp only
  rw [Action.run_bind, Action.run_ofSystem, World.run_read]
  cases w.files.read (w.expand p) <;> rfl

/-! ## Searching -/

theorem run_firstExisting (paths : List Text) (w : World) :
    (firstExisting paths : StateM World (Option Text)).run w =
      (paths.find? fun p => (w.files.stat p).isOk, w) := by
  induction paths with
  | nil => rfl
  | cons p paths ih =>
    rw [firstExisting, World.run_bind, World.run_stat, List.find?_cons]
    cases w.files.stat p with
    | ok _ => rfl
    | error _ => exact ih

theorem run_loadFromEnvironment {w : World}
    (h : (w.valueOf? "HTEX_CONFIG".toList).getD [] = []) :
    (loadFromEnvironment : Action (StateM World) Settings).run.run w =
      match w.searchPaths.find? fun p => (w.files.stat p).isOk with
      | some p => (load p : Action (StateM World) Settings).run.run w
      | none => (.ok .default, w) := by
  have hVariable : (Host.lookup "HTEX_CONFIG".toList : StateM World Text).run w = ([], w) := by
    rw [← h]
    rfl
  have hFound : (do firstExisting (← searchPaths) : StateM World (Option Text)).run w =
      (w.searchPaths.find? fun p => (w.files.stat p).isOk, w) :=
    run_firstExisting w.searchPaths w
  rw [loadFromEnvironment, Action.run_bind, Action.run_liftM, hVariable]
  dsimp only
  rw [if_pos (by rfl), Action.run_bind, Action.run_liftM, hFound]
  dsimp only
  cases w.searchPaths.find? fun p => (w.files.stat p).isOk <;> rfl

/-- Without a dollar sign in the home directory nothing in the names is replaced. -/
theorem expand_of_mem_searchPaths {w : World} (h : '$' ∉ (w.valueOf? "HOME".toList).getD []) :
    ∀ p ∈ w.searchPaths, w.expand p = p := by
  intro p hp
  refine w.expand_of_not_mem ?_
  generalize hHome : (w.valueOf? "HOME".toList).getD [] = home at h
  have hPaths : w.searchPaths = searchPathsFor (if home.isEmpty then none else some home) := by
    rw [← hHome]
    rfl
  rw [hPaths] at hp
  have hCases : p ∈ ["./htex.toml".toList, "./htex.yaml".toList, "./htex.yml".toList] ∨
      p = Path.join home ".config/htex/config.toml".toList := by
    split_ifs at hp
    · exact Or.inl hp
    · exact (List.mem_append.mp hp).imp_right List.mem_singleton.mp
  intro hDollar
  rcases hCases with hLocal | rfl
  · have hNames : ["./htex.toml".toList, "./htex.yaml".toList, "./htex.yml".toList].all
        fun name => '$' ∉ name := by
      decide
    exact of_decide_eq_true (List.all_eq_true.mp hNames p hLocal) hDollar
  · rcases Path.mem_of_mem_join hDollar with hHome | hDollar
    · exact h hHome
    · revert hDollar
      decide

/-- The first of the usual files that is there is read. -/
theorem run_loadFromEnvironment_of_split {w : World}
    (h : (w.valueOf? "HTEX_CONFIG".toList).getD [] = []) {before after : List Text} {p : Text}
    (hPaths : w.searchPaths = before ++ p :: after)
    (hBefore : ∀ q ∈ before, (w.files.stat q).isOk = false) (hThere : (w.files.stat p).isOk) :
    (loadFromEnvironment : Action (StateM World) Settings).run.run w =
      (load p : Action (StateM World) Settings).run.run w := by
  have hFind : (w.searchPaths.find? fun p => (w.files.stat p).isOk) = some p := by
    rw [List.find?_eq_some_iff_append]
    exact ⟨hThere, before, after, hPaths, fun q hq => by simp [hBefore q hq]⟩
  rw [run_loadFromEnvironment h, hFind]

/-- Which settings are taken when no variable names a file. -/
theorem loadFromEnvironment_of_first (w : World)
    (hVariable : (w.valueOf? "HTEX_CONFIG".toList).getD [] = []) :
    ((∀ p ∈ w.searchPaths, (w.files.stat p).isOk = false) →
      (loadFromEnvironment (m := StateM World)).run.run w = (.ok .default, w)) ∧
    (∀ before p after content, w.searchPaths = before ++ p :: after →
      (∀ q ∈ before, (w.files.stat q).isOk = false) → w.files.read p = .ok content →
      (loadFromEnvironment (m := StateM World)).run.run w =
        (match w.files.read (w.expand p) with
        | .ok found => (parse (m := StateM World) (Format.detect (w.expand p)) found).run.run w
        | .error e => (.error ⟨["failed to read config".toList], .file e⟩, w)) ∧
      (w.expand p = p → ∀ other : World, other.environment = w.environment →
        (loadFromEnvironment (m := StateM World)).run.run w =
          (((parse (m := StateM World) (Format.detect p) content).run.run other).1, w))) ∧
    ('$' ∉ (w.valueOf? "HOME".toList).getD [] → ∀ p ∈ w.searchPaths, w.expand p = p) := by
  refine ⟨fun hNone => ?_, ?_, expand_of_mem_searchPaths⟩
  · have hFind : (w.searchPaths.find? fun p => (w.files.stat p).isOk) = none := by
      rw [List.find?_eq_none]
      exact fun p hp => by simp [hNone p hp]
    rw [run_loadFromEnvironment hVariable, hFind]
  · intro before p after content hPaths hBefore hRead
    have hThere : (w.files.stat p).isOk := by
      rw [FileTree.stat_of_read hRead]
      rfl
    rw [run_loadFromEnvironment_of_split hVariable hPaths hBefore hThere, run_load]
    refine ⟨rfl, fun hSame other hOther => ?_⟩
    rw [hSame, hRead]
    exact run_parse_congr hOther _ _

/-- Two directories with a settings file each: the one in `a$X` sets nothing, and the one in `a`
cannot be understood. -/
def twoHomes : FileTree :=
  ⟨["a$X", "a"].flatMap fun home =>
    [(⟨.above 0, [home.toList]⟩, .directory),
      (⟨.above 0, [home.toList, ".config".toList]⟩, .directory),
      (⟨.above 0, [home.toList, ".config".toList, "htex".toList]⟩, .directory),
      (⟨.above 0, [home.toList, ".config".toList, "htex".toList, "config.toml".toList]⟩,
        .file (if home = "a$X" then .empty else "[output".toUTF8))]⟩

/-- A world with these files and some variables. -/
def homeWorld (environment : List (Text × Text)) : World :=
  { files := twoHomes
    environment := environment
    input := .ok .empty
    output := ⟨[], none⟩
    errors := []
    time := [] }

/-- The settings file below the home directory `a$X`. -/
def homeFile : Text := "a$X/.config/htex/config.toml".toList

/-- A variable in the name of the home directory that stands for itself: the file that is found is
the one that is read. -/
theorem loadFromEnvironment_of_first_same_name :
    ((loadFromEnvironment (m := StateM World)).run.run
      (homeWorld [("HOME".toList, "a$X".toList), ("X".toList, "$X".toList)])).1 = .ok .default := by
  let w := homeWorld [("HOME".toList, "a$X".toList), ("X".toList, "$X".toList)]
  obtain ⟨_, hFirst, _⟩ := loadFromEnvironment_of_first w (by decide)
  obtain ⟨_, hSame⟩ := hFirst ["./htex.toml".toList, "./htex.yaml".toList, "./htex.yml".toList]
    homeFile [] .empty (by decide) (by decide) rfl
  rw [hSame (by decide +kernel) w rfl]
  decide +kernel

/-- A variable in the name of the home directory that is not set: the settings file that is found
sets nothing, but the one that is read is another file and cannot be understood. -/
theorem loadFromEnvironment_reads_other_file :
    (homeWorld [("HOME".toList, "a$X".toList)]).searchPaths =
        ["./htex.toml".toList, "./htex.yaml".toList, "./htex.yml".toList] ++ [homeFile] ∧
      (∀ q ∈ ["./htex.toml".toList, "./htex.yaml".toList, "./htex.yml".toList],
        (twoHomes.stat q).isOk = false) ∧
      twoHomes.read homeFile = .ok .empty ∧
      ((parse (m := StateM World) (Format.detect homeFile) .empty).run.run
        (homeWorld [("HOME".toList, "a$X".toList)])).1 = .ok .default ∧
      ((loadFromEnvironment (m := StateM World)).run.run
        (homeWorld [("HOME".toList, "a$X".toList)])).1 = .error (.of (.settings .toml)) := by
  refine ⟨by decide, by decide, rfl, ?_, ?_⟩
  · decide +kernel
  · decide +kernel

end Settings

end ProseMath
