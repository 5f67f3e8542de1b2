import Mathlib.Tactic.Common
import ProseMath.Text.Basic

/-!
# Parts between separators

What parts that are put together with separators hold, and what the parts of a text hold.

* `mem_intercalate_of_mem`, `mem_of_mem_intercalate`: parts put together.
* `mem_of_mem_splitOn`: the parts of a text.
-/

namespace ProseMath.Text

section Intercalate

variable {α : Type} {a : α} {separator : List α} {parts : List (List α)}

theorem mem_intercalate_of_mem {part : List α} (hPart : part ∈ parts) (ha : a ∈ part) :
    a ∈ separator.intercalate parts := by
  induction parts with
  | nil => cases hPart
  | cons first rest ih =>
    by_cases hRest : rest = []
    · subst hRest
      rwa [List.intercalate_singleton, ← List.mem_singleton.mp hPart]
    · rw [List.intercalate_cons_of_ne_nil hRest]
      rcases List.mem_cons.mp hPart with rfl | hPart
      · exact List.mem_append_left _ (List.mem_append_left _ ha)
      · exact List.mem_append_right _ (ih hPart)

theorem mem_of_mem_intercalate (h : a ∈ separator.intercalate parts) :
    a ∈ separator ∨ ∃ part ∈ parts, a ∈ part := by
  induction parts with
  | nil => cases h
  | cons first rest ih =>
    by_cases hRest : rest = []
    · subst hRest
      rw [List.intercalate_singleton] at h
      exact Or.inr ⟨first, List.mem_singleton_self first, h⟩
    · rw [List.intercalate_cons_of_ne_nil hRest, List.mem_append, List.mem_append] at h
      rcases h with (hFirst | hSeparator) | hRest
      · exact Or.inr ⟨first, List.mem_cons_self, hFirst⟩
      · exact Or.inl hSeparator
      · exact (ih hRest).imp_right fun ⟨part, hPart, ha⟩ => ⟨part, List.mem_cons_of_mem _ hPart, ha⟩

end Intercalate

theorem mem_of_mem_splitOn {c separator : Char} {t part : Text}
    (hPart : part ∈ t.splitOn separator) (hc : c ∈ part) : c ∈ t := by
  have hText : [separator].intercalate (t.splitOn separator) = t :=
    List.intercalate_splitOn separator
  exact hText ▸ mem_intercalate_of_mem hPart hc

end ProseMath.Text
