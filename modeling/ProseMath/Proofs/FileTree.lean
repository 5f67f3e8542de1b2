import Mathlib.Tactic.Common
import ProseMath.FileTree
import ProseMath.Proofs.Path

/-!
# What file operations change

A path means one place, whatever the tree holds there. Writing a file changes that place only, and
making directories adds directories at places that were free.

* `Location.isAbove_of_mem_ancestors`: where the directories on the way to a path are.
* `FileTree.ofPath_of_locate`: a path that can be followed leads to the place it means.
* `FileTree.write_eq_ok_iff`, `FileTree.CanWrite.lookup_insert`: writing, and reading afterwards.
* `FileTree.makeDirectories_grows`: making directories.
-/

namespace ProseMath

open ProseMath.Path

/-! ## Places -/

namespace Location

/-- The place that elements lead to, whatever is there. -/
def follow (place : Location) (elements : List Text) : Location := elements.foldl child place

/-- The place that a path means. -/
def ofPath (p : Text) : Location := (ofStart p).follow (p.splitOn '/')

/-- From the first place one gets to the second by going down. -/
def IsAbove (upper lower : Location) : Prop :=
  ∃ name names, lower = ⟨upper.origin, upper.names ++ name :: names⟩

theorem child_of_isName (place : Location) {element : Text} (h : IsName element) :
    place.child element = ⟨place.origin, place.names ++ [element]⟩ := by
  rw [child, if_neg (by simp [h.not_nil, h.not_here]), if_neg h.not_above]

theorem follow_significant (place : Location) (parts : List Text) :
    place.follow (significant parts) = place.follow parts := by
  rw [follow, follow, significant, List.foldl_filter]
  congr 1
  funext place part
  split_ifs with hPart
  · rfl
  · rw [child, if_pos (by simpa [or_iff_not_imp_left] using hPart)]

theorem follow_names (place : Location) {names : List Text} (h : ∀ name ∈ names, IsName name) :
    place.follow names = ⟨place.origin, place.names ++ names⟩ := by
  induction names generalizing place with
  | nil => rw [List.append_nil, follow, List.foldl_nil]
  | cons name names ih =>
    rw [List.forall_mem_cons] at h
    have hRest := ih (place.child name) h.2
    rw [child_of_isName place h.1] at hRest
    rw [follow, List.foldl_cons, child_of_isName place h.1, ← follow, hRest, List.append_assoc]
    rfl

theorem names_follow_above {place : Location} (h : place.names = []) (levels : Nat) :
    (place.follow (List.replicate levels above)).names = [] := by
  induction levels generalizing place with
  | zero => exact h
  | succ levels ih =>
    obtain ⟨origin, names⟩ := place
    subst h
    cases origin <;> exact ih rfl

/-- The beginnings of clean elements lead to where nothing has been named yet, or down towards the
same end. -/
theorem isAbove_of_prefix {absolute : Bool} {elements first : List Text} {start : Location}
    (hClean : IsClean absolute elements) (hFirst : first <+: elements) (hStart : start.names = []) :
    (start.follow first).names = [] ∨ start.follow first = start.follow elements ∨
      (start.follow first).IsAbove (start.follow elements) := by
  obtain ⟨levels, names, rfl, hNames, _⟩ := hClean
  have hDown {some : List Text} (hSome : ∀ name ∈ some, IsName name) :
      start.follow (List.replicate levels above ++ some) =
        ⟨(start.follow (List.replicate levels above)).origin, some⟩ := by
    rw [follow, List.foldl_append, ← follow, ← follow, follow_names _ hSome,
      names_follow_above hStart, List.nil_append]
  rcases List.prefix_or_prefix_of_prefix hFirst (List.prefix_append _ names) with hUp | hUp
  · obtain ⟨_, hUp⟩ := List.prefix_replicate_iff.mp hUp
    rw [hUp]
    exact Or.inl (names_follow_above hStart _)
  · obtain ⟨some, rfl⟩ := hUp
    obtain ⟨rest, rfl⟩ := (List.prefix_append_right_inj _).mp hFirst
    rw [hDown fun name hName => hNames name (List.mem_append_left _ hName), hDown hNames]
    cases rest with
    | nil => exact Or.inr (Or.inl (by rw [List.append_nil]))
    | cons name rest => exact Or.inr (Or.inr ⟨name, rest, rfl⟩)

theorem isAbove_of_mem_ancestors {p q : Text} (h : q ∈ ancestors (directory (clean p))) :
    (ofPath q).names = [] ∨ ofPath q = ofPath (clean p) ∨
      (ofPath q).IsAbove (ofPath (clean p)) := by
  obtain ⟨hRoot, hFirst⟩ := prefix_of_mem_ancestors_directory h
  have hStart : ofStart q = ofStart (clean p) := by rw [ofStart, ofStart, hRoot]
  have hClean : IsClean (isAbsolute p) (significant ((clean p).splitOn '/')) :=
    significant_clean p ▸ isClean_elements p
  have hNames : (ofStart (clean p)).names = [] := by
    rw [ofStart]
    split_ifs <;> rfl
  rw [ofPath, ofPath, hStart, ← follow_significant,
    ← follow_significant _ (List.splitOn _ (clean p))]
  exact isAbove_of_prefix hClean hFirst hNames

end Location

namespace FileTree

/-! ## Entries -/

theorem entry?_of_names_eq_nil (tree : FileTree) {place : Location} (h : place.names = []) :
    tree.entry? place = some .directory := by
  unfold entry?
  exact if_pos (List.isEmpty_iff.mpr h)

theorem names_ne_nil {tree : FileTree} {place : Location}
    (h : tree.entry? place ≠ some .directory) : place.names ≠ [] :=
  fun hNames => h (tree.entry?_of_names_eq_nil hNames)

theorem names_ne_nil_of_none {tree : FileTree} {place : Location}
    (h : tree.entry? place = none) : place.names ≠ [] :=
  names_ne_nil fun hThere => nomatch h.symm.trans hThere

theorem find?_insert (tree : FileTree) (place other : Location) (entry : Entry) :
    ((tree.insert place entry).entries.find? fun item => item.1 = other) =
      if other = place then some (place, entry)
      else tree.entries.find? fun item => item.1 = other := by
  have hKey (item : Location × Entry) :
      (if item.1 = place then (place, entry) else item).1 = item.1 := by
    split_ifs with h
    · exact h.symm
    · rfl
  rw [insert]
  split_ifs with hThere hOther hOther
  · subst hOther
    obtain ⟨found, hFound⟩ : ∃ found, (tree.entries.find? fun item => item.1 = other) =
        some found :=
      Option.isSome_iff_exists.mp (List.find?_isSome.mpr (List.any_eq_true.mp hThere))
    have hSame : found.1 = other := by simpa using List.find?_some hFound
    simp only [List.find?_map, Function.comp_def, hKey, hFound, Option.map_some, hSame, if_pos]
  · simp only [List.find?_map, Function.comp_def, hKey]
    cases hFound : tree.entries.find? fun item => item.1 = other with
    | none => rfl
    | some found =>
      have hSame : found.1 = other := by simpa using List.find?_some hFound
      rw [Option.map_some, if_neg (hSame ▸ hOther)]
  · subst hOther
    have hNone : (tree.entries.find? fun item => item.1 = other) = none := by
      rw [List.find?_eq_none]
      exact fun item hItem hSame => hThere (List.any_eq_true.mpr ⟨item, hItem, hSame⟩)
    rw [List.find?_append, hNone]
    simp
  · rw [List.find?_append]
    simp [Ne.symm hOther]

/-- What stands at a place after one entry has been put somewhere. -/
theorem entry?_insert (tree : FileTree) {place : Location} (h : place.names ≠ []) (entry : Entry)
    (other : Location) : entry? (tree.insert place entry) other =
      if other = place then some entry else tree.entry? other := by
  unfold entry?
  rw [find?_insert]
  by_cases hOther : other = place
  · rw [if_pos hOther, if_pos hOther, hOther, if_neg (by simpa using h)]
    rfl
  · rw [if_neg hOther, if_neg hOther]

/-! ## Following a path -/

theorem eq_follow_of_walk {tree : FileTree} {place found : Location} {elements : List Text}
    (h : tree.walk place elements = .ok found) : found = place.follow elements := by
  induction elements generalizing place with
  | nil => exact (Except.ok.inj h).symm
  | cons element rest ih =>
    rw [walk] at h
    split at h
    · cases h
    · cases h
    · exact ih h

theorem ofPath_of_locate {tree : FileTree} {p : Text} {place : Location}
    (h : tree.locate p = .ok place) : place = .ofPath p := by
  rw [locate] at h
  split_ifs at h
  exact eq_follow_of_walk h

theorem lookup_of_locate {tree : FileTree} {p : Text} {place : Location} {entry : Entry}
    (hPlace : tree.locate p = .ok place) (hEntry : tree.entry? place = some entry) :
    tree.lookup p = .ok entry := by
  simp only [lookup, hPlace, bind, Except.bind, hEntry]
  rfl

theorem stat_of_read {tree : FileTree} {p : Text} {content : ByteArray}
    (h : tree.read p = .ok content) : tree.stat p = .ok false := by
  rw [read] at h
  split at h
  next hLookup => rw [stat, hLookup]
  · cases h
  · cases h

/-- A way leads on as long as what is passed stays a directory. -/
theorem walk_of_directories {tree after : FileTree} {place found : Location}
    {elements : List Text}
    (hKeep : ∀ place, tree.entry? place = some .directory → after.entry? place = some .directory)
    (h : tree.walk place elements = .ok found) : after.walk place elements = .ok found := by
  induction elements generalizing place with
  | nil => exact h
  | cons element rest ih =>
    rw [walk] at h ⊢
    split at h
    · cases h
    · cases h
    next hPlace =>
      rw [hKeep place hPlace]
      exact ih h

/-! ## Writing -/

/-- A path leads to where a file is or can be made. -/
structure CanWrite (tree : FileTree) (p : Text) : Prop where
  located : tree.locate p = .ok (.ofPath p)
  not_directory : tree.entry? (.ofPath p) ≠ some .directory
  parent : tree.entry? (.ofPath p) = none →
    tree.entry? (Location.ofPath p).parent = some .directory

/-- Whether a file can be written does not depend on its content. -/
theorem write_eq_ok_iff {tree after : FileTree} {p : Text} {content : ByteArray} :
    tree.write p content = .ok after ↔
      tree.CanWrite p ∧ after = tree.insert (.ofPath p) (.file content) := by
  constructor
  · intro h
    rw [write] at h
    split at h
    · cases h
    next place hPlace =>
      obtain rfl := ofPath_of_locate hPlace
      split at h
      · cases h
      · next hEntry => exact ⟨⟨hPlace, by simp [hEntry], by simp [hEntry]⟩, (Except.ok.inj h).symm⟩
      · next hEntry =>
        split at h
        next hParent =>
          exact ⟨⟨hPlace, by simp [hEntry], fun _ => hParent⟩, (Except.ok.inj h).symm⟩
        · cases h
        · cases h
  · rintro ⟨hCan, rfl⟩
    rw [write, hCan.located]
    cases hEntry : tree.entry? (.ofPath p) with
    | none =>
      dsimp only
      rw [hEntry, hCan.parent hEntry]
    | some entry =>
      cases entry with
      | directory => exact absurd hEntry hCan.not_directory
      | file _ =>
        dsimp only
        rw [hEntry]

namespace CanWrite

variable {tree : FileTree} {p : Text}

theorem write (h : tree.CanWrite p) (content : ByteArray) :
    tree.write p content = .ok (tree.insert (.ofPath p) (.file content)) :=
  write_eq_ok_iff.mpr ⟨h, rfl⟩

theorem entry?_insert (h : tree.CanWrite p) (content : ByteArray) (place : Location) :
    entry? (tree.insert (.ofPath p) (.file content)) place =
      if place = .ofPath p then some (.file content) else tree.entry? place :=
  FileTree.entry?_insert tree (names_ne_nil h.not_directory) _ place

/-- Directories stay when a file is written. -/
theorem directory_insert (h : tree.CanWrite p) (content : ByteArray) (place : Location)
    (hPlace : tree.entry? place = some .directory) :
    entry? (tree.insert (.ofPath p) (.file content)) place = some .directory := by
  have hOther : place ≠ .ofPath p := fun hSame => h.not_directory (hSame ▸ hPlace)
  rw [h.entry?_insert, if_neg hOther, hPlace]

/-- The place stays where it is when a file is written there. -/
theorem locate_insert (h : tree.CanWrite p) (content : ByteArray) :
    (tree.insert (.ofPath p) (.file content)).locate p = .ok (.ofPath p) := by
  have hLocated := h.located
  rw [locate] at hLocated ⊢
  split_ifs at hLocated ⊢
  exact walk_of_directories (h.directory_insert content) hLocated

/-- What was written can be read. -/
theorem lookup_insert (h : tree.CanWrite p) (content : ByteArray) :
    (tree.insert (.ofPath p) (.file content)).lookup p = .ok (.file content) :=
  lookup_of_locate (h.locate_insert content) (by rw [h.entry?_insert, if_pos rfl])

theorem read_insert (h : tree.CanWrite p) (content : ByteArray) :
    (tree.insert (.ofPath p) (.file content)).read p = .ok content := by
  rw [read, h.lookup_insert]

/-- What was written can be written again. -/
theorem insert (h : tree.CanWrite p) (content : ByteArray) :
    (tree.insert (.ofPath p) (.file content)).CanWrite p := by
  have hEntry := h.entry?_insert content (.ofPath p)
  rw [if_pos rfl] at hEntry
  exact ⟨h.locate_insert content, by simp [hEntry], by simp [hEntry]⟩

end CanWrite

theorem insert_insert (tree : FileTree) (place : Location) (first second : Entry) :
    (tree.insert place first).insert place second = tree.insert place second := by
  by_cases hThere : tree.entries.any fun item => item.1 = place
  · have hInsert (entry : Entry) : tree.insert place entry =
        ⟨tree.entries.map fun item => if item.1 = place then (place, entry) else item⟩ :=
      if_pos hThere
    have hStill : (tree.entries.map fun item => if item.1 = place then (place, first) else item).any
        fun item => item.1 = place := by
      rw [List.any_map]
      refine List.any_eq_true.mpr ?_
      obtain ⟨item, hItem, hSame⟩ := List.any_eq_true.mp hThere
      exact ⟨item, hItem, by simp [of_decide_eq_true hSame]⟩
    rw [hInsert, hInsert, insert, if_pos hStill, List.map_map]
    congr 2
    funext item
    by_cases hSame : item.1 = place <;> simp [hSame]
  · have hInsert (entry : Entry) : tree.insert place entry = ⟨tree.entries ++ [(place, entry)]⟩ :=
      if_neg hThere
    have hOther : ∀ item ∈ tree.entries, item.1 ≠ place := fun item hItem hSame =>
      hThere (List.any_eq_true.mpr ⟨item, hItem, decide_eq_true hSame⟩)
    have hMap : (tree.entries.map fun item => if item.1 = place then (place, second) else item) =
        tree.entries := by
      refine (List.map_congr_left fun item hItem => if_neg (hOther item hItem)).trans ?_
      exact List.map_id' tree.entries
    rw [hInsert, hInsert, insert, if_pos (by simp), List.map_append, hMap]
    simp

/-! ## Making directories -/

/-- The second tree has more directories than the first, at allowed places, and nothing else. -/
def Grows (allowed : Location → Prop) (before after : FileTree) : Prop :=
  ∀ place, after.entry? place = before.entry? place ∨
    before.entry? place = none ∧ after.entry? place = some .directory ∧ allowed place

namespace Grows

variable {allowed : Location → Prop} {before between after : FileTree}

theorem refl (allowed : Location → Prop) (tree : FileTree) : Grows allowed tree tree :=
  fun _ => Or.inl rfl

theorem trans (hFirst : Grows allowed before between) (hSecond : Grows allowed between after) :
    Grows allowed before after := by
  intro place
  rcases hSecond place with hSame | ⟨hFree, hNew, hAllowed⟩
  · rw [hSame]
    exact hFirst place
  · rcases hFirst place with hSame | ⟨_, hNew', _⟩
    · exact Or.inr ⟨hSame ▸ hFree, hNew, hAllowed⟩
    · rw [hFree] at hNew'
      cases hNew'

theorem mono {others : Location → Prop} (h : Grows allowed before after)
    (hAllowed : ∀ place, allowed place → others place) : Grows others before after :=
  fun place => (h place).imp_right fun ⟨hFree, hNew, hPlace⟩ => ⟨hFree, hNew, hAllowed place hPlace⟩

theorem directory (h : Grows allowed before after) (place : Location)
    (hPlace : before.entry? place = some .directory) : after.entry? place = some .directory := by
  rcases h place with hSame | ⟨hFree, _, _⟩
  · rw [hSame, hPlace]
  · cases hFree.symm.trans hPlace

theorem file_iff (h : Grows allowed before after) (place : Location) (content : ByteArray) :
    after.entry? place = some (.file content) ↔ before.entry? place = some (.file content) := by
  rcases h place with hSame | ⟨hFree, hNew, _⟩
  · rw [hSame]
  · simp [hFree, hNew]

end Grows

theorem makeDirectory_grows {tree after : FileTree} {p : Text}
    (h : tree.makeDirectory p = .ok after) : Grows (· = .ofPath p) tree after := by
  rw [makeDirectory] at h
  split at h
  · cases h
  next place hPlace =>
    obtain rfl := ofPath_of_locate hPlace
    split at h
    · cases h
      exact .refl _ tree
    · cases h
    next hFree =>
      cases h
      intro place
      rw [entry?_insert tree (names_ne_nil_of_none hFree)]
      split_ifs with hSame
      · exact Or.inr ⟨hSame ▸ hFree, rfl, hSame⟩
      · exact Or.inl rfl

theorem foldlM_makeDirectory_grows {tree after : FileTree} {paths : List Text}
    (h : paths.foldlM makeDirectory tree = .ok after) :
    Grows (fun place => ∃ q ∈ paths, place = .ofPath q) tree after := by
  induction paths generalizing tree with
  | nil =>
    cases h
    exact .refl _ after
  | cons q paths ih =>
    rw [List.foldlM_cons] at h
    cases hFirst : tree.makeDirectory q with
    | error e =>
      rw [hFirst] at h
      cases h
    | ok between =>
      rw [hFirst] at h
      have hStep := makeDirectory_grows hFirst
      exact (hStep.mono fun _ hPlace => ⟨q, List.mem_cons_self, hPlace⟩).trans
        ((ih h).mono fun _ ⟨q, hq, hPlace⟩ => ⟨q, List.mem_cons_of_mem _ hq, hPlace⟩)

/-- Directories are made only above the end of a cleaned path, where there was nothing. -/
theorem makeDirectories_grows {tree after : FileTree} {p : Text}
    (h : tree.makeDirectories (directory (clean p)) = .ok after) :
    Grows (fun place => place = .ofPath (clean p) ∨ place.IsAbove (.ofPath (clean p)))
      tree after := by
  intro place
  rcases foldlM_makeDirectory_grows h place with hSame | ⟨hFree, hNew, q, hq, rfl⟩
  · exact Or.inl hSame
  · have hPlace := (Location.isAbove_of_mem_ancestors hq).resolve_left (names_ne_nil_of_none hFree)
    exact Or.inr ⟨hFree, hNew, hPlace⟩

end FileTree

end ProseMath
