import Mathlib.Data.List.TakeWhile
import Mathlib.Tactic.Common
import Mathlib.Tactic.MkIffOfInductiveProp
import ProseMath.Latex.Package
import ProseMath.Proofs.Text.Separator
import ProseMath.Proofs.Text.Trim

/-!
# Lists of packages

A list of packages is written as entries with commas between them. Entries with nothing in them and
blanks may stand anywhere. Such a list is read as the packages that it was written for.

* `ofEntry_entry`: one entry.
* `Listed.map_ofEntry`: the entries of a list, empty ones left out.
* `Spaced.filter_eq`, `spaced_filter`: blanks.
* `parseList_of_listed`: whole lists.
-/

namespace ProseMath.Latex.Package

/-! ## Writing -/

/-- A package as an entry of a list. Its options are separated by semicolons, as commas separate
the entries. -/
def entry (p : Package) : Text :=
  if p.options.isEmpty then p.name
  else p.name ++ '=' :: p.options.map fun c => if c = ',' then ';' else c

/-- A package that can be written as an entry. -/
@[mk_iff]
structure IsListable (p : Package) : Prop where
  name_ne_nil : p.name ≠ []
  name : ∀ c ∈ p.name, c ≠ ',' ∧ c ≠ '=' ∧ isIgnored c = false
  options : ∀ c ∈ p.options, c ≠ ';' ∧ isIgnored c = false

instance : DecidablePred IsListable := fun p =>
  decidable_of_iff
    (p.name ≠ [] ∧ (p.name.all fun c => c ≠ ',' ∧ c ≠ '=' ∧ isIgnored c = false) ∧
      p.options.all fun c => c ≠ ';' ∧ isIgnored c = false)
    (by simp [isListable_iff])

/-- The parts of a list between commas: the entries of the packages in order, and any number of
empty parts. -/
inductive Listed : List Package → List Text → Prop
  | nil : Listed [] []
  | empty {packages : List Package} {parts : List Text} (hRest : Listed packages parts) :
    Listed packages ([] :: parts)
  | entry (p : Package) {packages : List Package} {parts : List Text}
    (hRest : Listed packages parts) : Listed (p :: packages) (p.entry :: parts)

/-- The second text is the first one with blanks inserted at any places. -/
inductive Spaced : Text → Text → Prop
  | nil : Spaced [] []
  | keep (c : Char) {s t : Text} (hRest : Spaced s t) : Spaced (c :: s) (c :: t)
  | blank {c : Char} {s t : Text} (hBlank : isIgnored c) (hRest : Spaced s t) : Spaced s (c :: t)

/-! ## Entries -/

namespace IsListable

variable {p : Package}

theorem entry_ne_nil (h : p.IsListable) : p.entry ≠ [] := by
  rw [entry]
  split_ifs
  · exact h.name_ne_nil
  · exact List.append_ne_nil_of_left_ne_nil h.name_ne_nil _

/-- Neither a comma nor a blank gets into an entry. -/
theorem of_mem_entry (h : p.IsListable) {c : Char} (hc : c ∈ p.entry) :
    c ≠ ',' ∧ isIgnored c = false := by
  have hName (hc : c ∈ p.name) : c ≠ ',' ∧ isIgnored c = false :=
    ⟨(h.name c hc).1, (h.name c hc).2.2⟩
  rw [entry] at hc
  split_ifs at hc
  · exact hName hc
  rcases List.mem_append.mp hc with hc | hc
  · exact hName hc
  rcases List.mem_cons.mp hc with rfl | hc
  · decide
  obtain ⟨d, hd, rfl⟩ := List.mem_map.mp hc
  by_cases hComma : d = ','
  · rw [if_pos hComma]
    decide
  · rw [if_neg hComma]
    exact ⟨hComma, (h.options d hd).2⟩

theorem ofEntry_entry (h : p.IsListable) : ofEntry p.entry = p := by
  have hName : ∀ c ∈ p.name, decide (c ≠ '=') = true := fun c hc => by simpa using (h.name c hc).2.1
  have hStop (rest : Text) : ∀ c ∈ ('=' :: rest).head?, decide (c ≠ '=') = false := by simp
  rw [entry, ofEntry]
  split_ifs with hOptions
  · rw [List.takeWhile_eq_self_iff.mpr hName, List.dropWhile_eq_nil_iff.mpr hName]
    exact congrArg (Package.mk p.name) (List.isEmpty_iff.mp hOptions).symm
  · have hBack : p.options.map (fun c => if (if c = ',' then ';' else c) = ';' then ','
        else if c = ',' then ';' else c) = p.options := by
      refine (List.map_congr_left fun c hc => ?_).trans (List.map_id' p.options)
      by_cases hComma : c = ','
      · simp [hComma]
      · simp [hComma, (h.options c hc).1]
    rw [Text.takeWhile_append_stop (hStop _), Text.dropWhile_append_stop (hStop _),
      List.takeWhile_eq_self_iff.mpr hName, List.dropWhile_eq_nil_iff.mpr hName, List.nil_append,
      List.drop_one, List.tail_cons, List.map_map]
    exact congrArg (Package.mk p.name) hBack

end IsListable

/-! ## Parts and blanks -/

namespace Listed

variable {packages : List Package} {parts : List Text}

theorem of_mem (h : Listed packages parts) (hPackages : ∀ p ∈ packages, p.IsListable) :
    ∀ part ∈ parts, ∀ c ∈ part, c ≠ ',' ∧ isIgnored c = false := by
  induction h with
  | nil => simp
  | empty _ ih => simpa using ih hPackages
  | entry p _ ih =>
    rw [List.forall_mem_cons] at hPackages ⊢
    exact ⟨fun c hc => hPackages.1.of_mem_entry hc, ih hPackages.2⟩

theorem map_ofEntry (h : Listed packages parts) (hPackages : ∀ p ∈ packages, p.IsListable) :
    (parts.filter fun part => !part.isEmpty).map ofEntry = packages := by
  induction h with
  | nil => rfl
  | empty _ ih => exact ih hPackages
  | entry p _ ih =>
    rw [List.forall_mem_cons] at hPackages
    rw [List.filter_cons_of_pos (by simpa using hPackages.1.entry_ne_nil), List.map_cons,
      hPackages.1.ofEntry_entry, ih hPackages.2]

end Listed

theorem Spaced.filter_eq {s t : Text} (h : Spaced s t) :
    (t.filter fun c => !isIgnored c) = s.filter fun c => !isIgnored c := by
  induction h with
  | nil => rfl
  | keep c _ ih => rw [List.filter_cons, List.filter_cons, ih]
  | blank hBlank _ ih => rw [List.filter_cons_of_neg (by simp [hBlank]), ih]

theorem spaced_filter (t : Text) : Spaced (t.filter fun c => !isIgnored c) t := by
  induction t with
  | nil => exact .nil
  | cons c t ih =>
    cases hBlank : isIgnored c with
    | true =>
      rw [List.filter_cons_of_neg (by simp [hBlank])]
      exact .blank hBlank ih
    | false =>
      rw [List.filter_cons_of_pos (by simp [hBlank])]
      exact .keep c ih

/-! ## Lists -/

/-- A list of packages is read as the packages it was written for, wherever blanks and empty parts
are put into it. -/
theorem parseList_of_listed {packages : List Package} (hPackages : ∀ p ∈ packages, p.IsListable)
    {parts : List Text} (hParts : Listed packages parts) {t : Text}
    (hSpaced : Spaced ([','].intercalate parts) t) : parseList t = packages := by
  have hChars := hParts.of_mem hPackages
  have hText : (t.filter fun c => !isIgnored c) = [','].intercalate parts := by
    rw [hSpaced.filter_eq, List.filter_eq_self]
    intro c hc
    rcases Text.mem_of_mem_intercalate hc with hComma | ⟨part, hPart, hc⟩
    · rw [List.mem_singleton.mp hComma]
      rfl
    · rw [(hChars part hPart c hc).2]
      rfl
  rw [parseList, hText]
  by_cases hNil : parts = []
  · subst hNil
    cases hParts
    rfl
  · have hSplit : ([','].intercalate parts).splitOn ',' = parts :=
      List.splitOn_intercalate ',' (fun part hPart hc => (hChars part hPart _ hc).1 rfl) hNil
    rw [hSplit, hParts.map_ofEntry hPackages]

/-- Three packages, one of them with an equals sign in its options and one with two options. -/
def somePackages : List Package :=
  [⟨"geometry".toList, "margin=2cm".toList⟩, ⟨"babel".toList, "ngerman,english".toList⟩,
    ⟨"amsmath".toList, []⟩]

/-- A list of them with empty parts in the middle and at the end, and with blanks also inside a
name. -/
def someList : Text :=
  " geo\tmetry = margin=2cm,, \r, babel=ngerman; english,\namsmath ,".toList

theorem parseList_of_listed_options : parseList someList = somePackages := by
  have hParts : Listed somePackages
      ["geometry=margin=2cm".toList, [], [], "babel=ngerman;english".toList,
        "amsmath".toList, []] :=
    .entry _ <| .empty <| .empty <| .entry _ <| .entry _ <| .empty .nil
  have hText : (someList.filter fun c => !isIgnored c) =
      [','].intercalate ["geometry=margin=2cm".toList, [], [], "babel=ngerman;english".toList,
        "amsmath".toList, []] := by
    decide
  have hSpaced := spaced_filter someList
  rw [hText] at hSpaced
  exact parseList_of_listed (by decide) hParts hSpaced

end ProseMath.Latex.Package
