import Mathlib.Data.List.DropRight
import Mathlib.Data.List.TakeWhile
import Mathlib.Tactic.Common
import ProseMath.Text.Basic

/-!
# Trimming

White space at the ends of a text does not matter to `Text.trim`.

* `takeWhile_append_stop`, `dropWhile_append_stop`: a run ends in front of an element that does not
  belong to it, whatever follows.
* `trim_append_left`, `trim_append_right`: white space can be taken off at either end.
* `trim_eq_nil_iff`: nothing is left exactly of white space.
* `exists_trim`: only white space is taken off.
* `trim_append_cons`: around a character both ends are trimmed each for itself.
-/

namespace ProseMath.Text

/-! ## Runs -/

section Run

variable {α : Type} {p : α → Bool} {b : List α}

theorem takeWhile_append_stop (hStop : ∀ x ∈ b.head?, p x = false) (a : List α) :
    (a ++ b).takeWhile p = a.takeWhile p := by
  induction a with
  | nil =>
    cases b with
    | nil => rfl
    | cons x b => exact List.takeWhile_cons_of_neg (by simp [hStop x rfl])
  | cons x a ih => rw [List.cons_append, List.takeWhile_cons, List.takeWhile_cons, ih]

theorem dropWhile_append_stop (hStop : ∀ x ∈ b.head?, p x = false) (a : List α) :
    (a ++ b).dropWhile p = a.dropWhile p ++ b := by
  induction a with
  | nil =>
    cases b with
    | nil => rfl
    | cons x b => exact List.dropWhile_cons_of_neg (by simp [hStop x rfl])
  | cons x a ih =>
    rw [List.cons_append, List.dropWhile_cons, List.dropWhile_cons, ih]
    split <;> rfl

/-- A run that does not go over a whole list does not notice what follows. -/
theorem run_append (a : List α) : (∀ x ∈ a, p x) ∨ a.dropWhile p ≠ [] ∧
    ∀ b, (a ++ b).takeWhile p = a.takeWhile p ∧ (a ++ b).dropWhile p = a.dropWhile p ++ b := by
  induction a with
  | nil => exact Or.inl (by simp)
  | cons x a ih =>
    by_cases hx : p x
    · rcases ih with hAll | ⟨hStop, hSplit⟩
      · exact Or.inl (List.forall_mem_cons.mpr ⟨hx, hAll⟩)
      · refine Or.inr ⟨by rwa [List.dropWhile_cons_of_pos hx], fun b => ?_⟩
        rw [List.cons_append, List.takeWhile_cons_of_pos hx, List.takeWhile_cons_of_pos hx,
          List.dropWhile_cons_of_pos hx, List.dropWhile_cons_of_pos hx, (hSplit b).1, (hSplit b).2]
        exact ⟨rfl, rfl⟩
    · refine Or.inr ⟨by simp [List.dropWhile_cons_of_neg hx], fun b => ?_⟩
      rw [List.cons_append, List.takeWhile_cons_of_neg hx, List.takeWhile_cons_of_neg hx,
        List.dropWhile_cons_of_neg hx, List.dropWhile_cons_of_neg hx]
      exact ⟨rfl, rfl⟩

end Run

/-! ## White space at the ends -/

theorem trim_append_left {a : Text} (h : ∀ c ∈ a, isSpace c) (b : Text) :
    trim (a ++ b) = trim b := by
  rw [trim, trim, List.dropWhile_append_of_pos h]

theorem trim_append_right (a : Text) {b : Text} (h : ∀ c ∈ b, isSpace c) :
    trim (a ++ b) = trim a := by
  have hReverse : ∀ c ∈ b.reverse, isSpace c := fun c hc => h c (List.mem_reverse.mp hc)
  rw [trim, trim, List.dropWhile_append]
  by_cases hBlank : a.dropWhile isSpace = []
  · have hEnd : b.dropWhile isSpace = [] := List.dropWhile_eq_nil_iff.mpr h
    rw [if_pos (by simp [hBlank]), hBlank, hEnd]
  · rw [if_neg (by simpa using hBlank), List.reverse_append, List.dropWhile_append_of_pos hReverse]

theorem trim_eq_nil_iff {t : Text} : trim t = [] ↔ ∀ c ∈ t, isSpace c := by
  constructor
  · intro h
    by_contra hSome
    have hLeft : t.dropWhile isSpace ≠ [] := mt List.dropWhile_eq_nil_iff.mp hSome
    have hFirst := List.head_dropWhile_not isSpace hLeft
    rw [trim, List.reverse_eq_nil_iff, List.dropWhile_eq_nil_iff] at h
    have hSpace := h _ (List.mem_reverse.mpr (List.head_mem hLeft))
    rw [hFirst] at hSpace
    cases hSpace
  · intro h
    have := trim_append_right [] h
    rw [List.nil_append] at this
    exact this

theorem exists_trim (t : Text) :
    ∃ before after, (∀ c ∈ before, isSpace c) ∧ (∀ c ∈ after, isSpace c) ∧
      t = before ++ trim t ++ after := by
  generalize hRest : t.dropWhile isSpace = rest
  refine ⟨t.takeWhile isSpace, (rest.reverse.takeWhile isSpace).reverse, ?_, ?_, ?_⟩
  · exact fun c hc => List.mem_takeWhile_imp hc
  · exact fun c hc => List.mem_takeWhile_imp (List.mem_reverse.mp hc)
  · rw [trim, hRest, List.append_assoc, ← List.reverse_append, List.takeWhile_append_dropWhile,
      List.reverse_reverse, ← hRest, List.takeWhile_append_dropWhile]

theorem trim_isInfix (t : Text) : trim t <:+: t := by
  obtain ⟨before, after, _, _, hText⟩ := exists_trim t
  exact ⟨before, after, hText.symm⟩

theorem trim_subset (t : Text) : trim t ⊆ t := (trim_isInfix t).subset

theorem trim_trim (t : Text) : trim (trim t) = trim t := by
  obtain ⟨before, after, hBefore, hAfter, hText⟩ := exists_trim t
  have hTrim := congrArg trim hText
  rw [trim_append_right _ hAfter, trim_append_left hBefore] at hTrim
  exact hTrim.symm

theorem trim_eq_self {t : Text} (hFirst : ∀ c ∈ t.head?, isSpace c = false)
    (hLast : ∀ c ∈ t.getLast?, isSpace c = false) : trim t = t := by
  have hDrop {u : Text} (h : ∀ c ∈ u.head?, isSpace c = false) : u.dropWhile isSpace = u := by
    cases u with
    | nil => rfl
    | cons c u => exact List.dropWhile_cons_of_neg (by simp [h c rfl])
  have hReverse : ∀ c ∈ t.reverse.head?, isSpace c = false := by rwa [List.head?_reverse]
  rw [trim, hDrop hFirst, hDrop hReverse, List.reverse_reverse]

theorem rdropWhile_append_cons {c : Char} (hc : isSpace c = false) (a b : Text) :
    (a ++ c :: b).rdropWhile isSpace = a ++ c :: b.rdropWhile isSpace := by
  have hStop : ∀ d ∈ (c :: a.reverse).head?, isSpace d = false := by simpa using hc
  rw [List.rdropWhile, List.reverse_append, List.reverse_cons, List.append_assoc,
    List.singleton_append, dropWhile_append_stop hStop, List.reverse_append, List.reverse_cons,
    List.reverse_reverse, List.append_assoc, List.singleton_append, List.rdropWhile]

theorem trim_append_cons {c : Char} (hc : isSpace c = false) (a b : Text) :
    trim (a ++ c :: b) = a.dropWhile isSpace ++ c :: b.rdropWhile isSpace := by
  have hStop : ∀ d ∈ (c :: b).head?, isSpace d = false := by simpa using hc
  have hFront := dropWhile_append_stop hStop a
  rw [← rdropWhile_append_cons hc, ← hFront]
  rfl

/-- Without the white space in front a text has only white space more than trimmed. -/
theorem exists_dropWhile_eq (t : Text) :
    ∃ spaces, (∀ c ∈ spaces, isSpace c) ∧ t.dropWhile isSpace = trim t ++ spaces :=
  ⟨_, fun _ hc => List.mem_rtakeWhile_imp hc, List.rdropWhile_append_rtakeWhile.symm⟩

theorem trim_infix_rdropWhile (t : Text) : trim t <:+: t.rdropWhile isSpace := by
  have hTrim : trim (t.rdropWhile isSpace) = trim t := by
    have hSpaces : ∀ c ∈ t.rtakeWhile isSpace, isSpace c := fun c hc => List.mem_rtakeWhile_imp hc
    rw [← trim_append_right _ hSpaces, List.rdropWhile_append_rtakeWhile]
  rw [← hTrim]
  exact trim_isInfix _

end ProseMath.Text
