import Mathlib.Tactic.Common
import ProseMath.Proofs.FileTree

/-!
# Following cleaned paths

There are no links in a file tree. A path that can be followed therefore leads where its cleaned
path leads, and two cleaned paths that mean one place are the same.

* `Location.ofPath_clean_inj`: cleaned paths and the places they mean.
* `FileTree.walk_push`, `FileTree.walk_pushAll`: one element, and all elements of a path.
* `FileTree.locate_clean`: a path and its cleaned path.
* `FileTree.makeDirectories_of_lookup`: directories that are there already.
* `FileTree.lookup_directory_clean`: the directory of a path.
-/

namespace ProseMath

open ProseMath.Path

/-! ## Places -/

namespace Location

theorem names_ofStart (p : Text) : (ofStart p).names = [] := by
  rw [ofStart]
  split_ifs <;> rfl

theorem follow_replicate_above (levels n : Nat) :
    follow ⟨.above n, []⟩ (List.replicate levels above) = ⟨.above (n + levels), []⟩ := by
  induction levels generalizing n with
  | zero => rfl
  | succ levels ih =>
    rw [List.replicate_succ, follow, List.foldl_cons, ← follow]
    exact (ih (n + 1)).trans (by rw [Nat.add_right_comm, Nat.add_assoc])

/-- The place that a cleaned path means shows how many levels it goes up, and the names it goes
down. -/
theorem ofPath_clean {p : Text} {levels : Nat} {names : List Text}
    (hElements : elements p = List.replicate levels above ++ names)
    (hNames : ∀ name ∈ names, IsName name) (hRoot : isAbsolute p → levels = 0) :
    ofPath (clean p) = ⟨if isAbsolute p then .root else .above levels, names⟩ := by
  rw [ofPath, ← follow_significant, significant_clean, hElements, ofStart, isAbsolute_clean, follow,
    List.foldl_append, ← follow, ← follow]
  cases hAbsolute : isAbsolute p with
  | true =>
    rw [hRoot hAbsolute, List.replicate_zero, if_pos rfl, if_pos rfl, follow_names _ hNames]
    rfl
  | false =>
    rw [if_neg Bool.false_ne_true, if_neg Bool.false_ne_true, working, follow_replicate_above,
      follow_names _ hNames, Nat.zero_add, List.nil_append]

theorem ofPath_clean_inj {p q : Text} (h : ofPath (clean p) = ofPath (clean q)) :
    clean p = clean q := by
  obtain ⟨levels, names, hElements, hNames, hRoot⟩ := isClean_elements p
  obtain ⟨levels', names', hElements', hNames', hRoot'⟩ := isClean_elements q
  rw [ofPath_clean hElements hNames hRoot, ofPath_clean hElements' hNames' hRoot',
    Location.mk.injEq] at h
  obtain ⟨hOrigin, rfl⟩ := h
  rw [clean_eq_clean_iff, hElements, hElements']
  cases hp : isAbsolute p with
  | true =>
    cases hq : isAbsolute q with
    | true => exact ⟨rfl, by rw [hRoot hp, hRoot' hq]⟩
    | false => rw [hp, hq] at hOrigin; cases hOrigin
  | false =>
    cases hq : isAbsolute q with
    | true => rw [hp, hq] at hOrigin; cases hOrigin
    | false =>
      rw [hp, hq] at hOrigin
      cases hOrigin
      exact ⟨rfl, rfl⟩

theorem parent_of_ne_nil {place : Location} (h : place.names ≠ []) :
    place.parent = ⟨place.origin, place.names.dropLast⟩ := by
  obtain ⟨origin, _ | ⟨first, names⟩⟩ := place
  · exact absurd rfl h
  · cases origin <;> rfl

/-- A step down and up again. -/
theorem child_child_above (place : Location) {name : Text} (h : IsName name) :
    (place.child name).child above = place := by
  have hUp (below : Location) : below.child above = below.parent := rfl
  rw [child_of_isName _ h, hUp, parent_of_ne_nil (List.concat_ne_nil _ _), List.dropLast_concat]

end Location

namespace FileTree

variable {tree : FileTree}

/-! ## Walks -/

theorem walk_append (place : Location) (a b : List Text) :
    tree.walk place (a ++ b) = (tree.walk place a).bind fun between => tree.walk between b := by
  induction a generalizing place with
  | nil => rfl
  | cons element a ih =>
    rw [List.cons_append, walk, walk]
    split
    · rfl
    · rfl
    · exact ih _

theorem walk_nil (place : Location) : tree.walk place [] = .ok place := rfl

theorem walk_cons_eq_ok_iff {place found : Location} {element : Text} {rest : List Text} :
    tree.walk place (element :: rest) = .ok found ↔
      tree.entry? place = some .directory ∧ tree.walk (place.child element) rest = .ok found := by
  rw [walk]
  split
  next hPlace => simp [hPlace]
  next hPlace => simp [hPlace]
  next hPlace => simp [hPlace]

theorem walk_append_eq_ok_iff {place found : Location} {a b : List Text} :
    tree.walk place (a ++ b) = .ok found ↔ ∃ between,
      tree.walk place a = .ok between ∧ tree.walk between b = .ok found := by
  rw [walk_append]
  cases tree.walk place a with
  | error reason => simp [Except.bind]
  | ok between => simp [Except.bind]

theorem walk_concat_eq_ok_iff {place found : Location} {elements : List Text} {element : Text} :
    tree.walk place (elements ++ [element]) = .ok found ↔ ∃ between,
      tree.walk place elements = .ok between ∧ tree.entry? between = some .directory ∧
        between.child element = found := by
  simp only [walk_append_eq_ok_iff, walk_cons_eq_ok_iff, walk_nil, Except.ok.injEq]

/-- What an element does to the place that is reached, it does to the cleaned way there. -/
theorem walk_push {p : Text} {stack : List Text} {place : Location}
    (hClean : IsClean (isAbsolute p) stack.reverse)
    (hWalk : tree.walk (.ofStart p) stack.reverse = .ok place)
    (hPlace : tree.entry? place = some .directory) (element : Text) :
    tree.walk (.ofStart p) (pushElement (isAbsolute p) stack element).reverse =
      .ok (place.child element) := by
  have hPut : tree.walk (.ofStart p) (element :: stack).reverse = .ok (place.child element) := by
    rw [List.reverse_cons]
    exact walk_concat_eq_ok_iff.mpr ⟨place, hWalk, hPlace, rfl⟩
  by_cases hStay : element = [] ∨ element = here
  · rw [pushElement_of_stay hStay, Location.child, if_pos hStay, hWalk]
  by_cases hUp : element = above
  · subst hUp
    cases stack with
    | nil =>
      cases hRoot : isAbsolute p with
      | true =>
        obtain rfl : Location.ofStart p = place := Except.ok.inj hWalk
        rw [Location.ofStart, hRoot]
        rfl
      | false => exact hPut
    | cons last stack =>
      rw [pushElement_above_cons]
      split_ifs with hLast
      · exact hPut
      · -- the way back to where the last name was put on
        have hName : IsName last := (hClean.cases_of_mem (by simp)).resolve_left hLast
        rw [List.reverse_cons] at hWalk
        obtain ⟨between, hBetween, _, rfl⟩ := walk_concat_eq_ok_iff.mp hWalk
        rw [Location.child_child_above between hName, hBetween]
  · rwa [pushElement_of_ne hStay hUp]

theorem walk_pushAll {p : Text} {stack parts : List Text} {place found : Location}
    (hClean : IsClean (isAbsolute p) stack.reverse)
    (hWalk : tree.walk (.ofStart p) stack.reverse = .ok place)
    (hParts : ∀ part ∈ parts, '/' ∉ part) (hFound : tree.walk place parts = .ok found) :
    tree.walk (.ofStart p) (parts.foldl (pushElement (isAbsolute p)) stack).reverse =
      .ok found := by
  induction parts generalizing stack place with
  | nil => rw [List.foldl_nil, hWalk, ← hFound, walk_nil]
  | cons part parts ih =>
    rw [List.forall_mem_cons] at hParts
    obtain ⟨hPlace, hRest⟩ := walk_cons_eq_ok_iff.mp hFound
    exact ih (hClean.push hParts.1) (walk_push hClean hWalk hPlace part) hParts.2 hRest

/-! ## Cleaned paths -/

theorem walk_stay {place : Location} (hPlace : place.names = []) {element : Text}
    (hStay : element = [] ∨ element = here) (rest : List Text) :
    tree.walk place (element :: rest) = tree.walk place rest := by
  rw [walk, tree.entry?_of_names_eq_nil hPlace, Location.child, if_pos hStay]

/-- A cleaned path is followed by its elements. -/
theorem locate_clean_eq (p : Text) :
    tree.locate (clean p) = tree.walk (.ofStart p) (elements p) := by
  have hStart : Location.ofStart (clean p) = .ofStart p := by
    rw [Location.ofStart, Location.ofStart, isAbsolute_clean]
  have hNames := Location.names_ofStart p
  rw [locate, if_neg (by simpa using clean_ne_nil p), hStart]
  by_cases hNil : elements p = []
  · have hText : clean p = if isAbsolute p then ['/'] else here := by
      rw [clean, hNil]
      rfl
    rw [hText, hNil]
    split_ifs
    · exact (walk_stay hNames (Or.inl rfl) [[]]).trans (walk_stay hNames (Or.inl rfl) [])
    · exact walk_stay hNames (Or.inr rfl) []
  · rw [splitOn_clean hNil]
    split_ifs
    · exact walk_stay hNames (Or.inl rfl) _
    · rfl

theorem locate_clean {p : Text} {place : Location} (h : tree.locate p = .ok place) :
    tree.locate (clean p) = .ok place := by
  rw [locate] at h
  split_ifs at h
  rw [locate_clean_eq]
  exact walk_pushAll IsClean.nil (walk_nil _) (fun _ => not_mem_of_mem_splitOn) h

theorem lookup_eq_ok_iff {p : Text} {entry : Entry} :
    tree.lookup p = .ok entry ↔
      tree.locate p = .ok (.ofPath p) ∧ tree.entry? (.ofPath p) = some entry := by
  constructor
  · intro h
    cases hLocate : tree.locate p with
    | error reason =>
      rw [lookup, hLocate] at h
      cases h
    | ok place =>
      obtain rfl := ofPath_of_locate hLocate
      refine ⟨rfl, ?_⟩
      cases hEntry : tree.entry? (.ofPath p) with
      | none =>
        simp only [lookup, hLocate, bind, Except.bind, hEntry] at h
        cases h
      | some other => rw [Except.ok.inj ((lookup_of_locate hLocate hEntry).symm.trans h)]
  · rintro ⟨hLocate, hEntry⟩
    exact lookup_of_locate hLocate hEntry

/-- A file is found again where all directories and the file itself are kept. -/
theorem lookup_of_kept {after : FileTree} {p : Text} {content : ByteArray}
    (hKeep : ∀ place, tree.entry? place = some .directory → after.entry? place = some .directory)
    (hEntry : after.entry? (.ofPath p) = some (.file content))
    (h : tree.lookup p = .ok (.file content)) : after.lookup p = .ok (.file content) := by
  have hLocate := (lookup_eq_ok_iff.mp h).1
  rw [locate] at hLocate
  split_ifs at hLocate with hEmpty
  have hAfter : after.locate p = .ok (.ofPath p) := by
    rw [locate, if_neg hEmpty]
    exact walk_of_directories hKeep hLocate
  exact lookup_of_locate hAfter hEntry

/-! ## Directories that are there -/

theorem foldlM_makeDirectory_of_forall {paths : List Text}
    (h : ∀ q ∈ paths, tree.makeDirectory q = .ok tree) :
    paths.foldlM makeDirectory tree = .ok tree := by
  induction paths with
  | nil => rfl
  | cons q paths ih =>
    rw [List.forall_mem_cons] at h
    rw [List.foldlM_cons, h.1]
    exact ih h.2

/-- Making directories that are there already changes nothing. -/
theorem makeDirectories_of_lookup {p : Text} (h : tree.lookup p = .ok .directory) :
    tree.makeDirectories p = .ok tree := by
  obtain ⟨hLocate, hEntry⟩ := lookup_eq_ok_iff.mp h
  rw [locate] at hLocate
  split_ifs at hLocate with hEmpty
  refine foldlM_makeDirectory_of_forall fun q hq => ?_
  obtain ⟨hSome, n, hSplit⟩ := exists_take_of_mem_ancestors hq
  have hStart : Location.ofStart q = .ofStart p := by
    rw [Location.ofStart, Location.ofStart,
      isAbsolute_of_mem_ancestors (fun h => hEmpty (List.isEmpty_iff.mpr h)) hq]
  -- a directory on the way is passed, or it is the end
  rw [← List.take_append_drop (n + 1) (p.splitOn '/')] at hLocate
  obtain ⟨between, hFirst, hRest⟩ := walk_append_eq_ok_iff.mp hLocate
  have hBetween : tree.entry? between = some .directory := by
    cases hDrop : (p.splitOn '/').drop (n + 1) with
    | nil =>
      rw [hDrop] at hRest
      rw [Except.ok.inj hRest, hEntry]
    | cons element rest =>
      rw [hDrop] at hRest
      exact (walk_cons_eq_ok_iff.mp hRest).1
  have hFound : tree.locate q = .ok between := by
    rw [locate, if_neg (by rwa [List.isEmpty_iff]), hStart, hSplit, hFirst]
  rw [makeDirectory, hFound]
  dsimp only
  rw [hBetween]

/-- What can be followed lies in a directory. -/
theorem lookup_directory_clean {p : Text} {place : Location} (h : tree.locate p = .ok place)
    (hLast : IsName (lastElement p)) : tree.lookup (directory (clean p)) = .ok .directory := by
  have hWalk := locate_clean h
  rw [locate_clean_eq, elements_of_isName hLast] at hWalk
  obtain ⟨between, hBefore, hDirectory, _⟩ := walk_concat_eq_ok_iff.mp hWalk
  have hStart : Location.ofStart (upToLast p) = .ofStart p := by
    rw [Location.ofStart, Location.ofStart, isAbsolute_upToLast]
  have hLocate : tree.locate (directory (clean p)) = .ok between := by
    rw [directory_clean hLast, directory, locate_clean_eq, hStart, hBefore]
  exact lookup_of_locate hLocate hDirectory

end FileTree

end ProseMath
