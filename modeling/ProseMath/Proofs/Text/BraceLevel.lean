import Mathlib.Data.List.Infix
import Mathlib.Tactic.Common
import ProseMath.Text.Basic

/-!
# Levels of braces

A text with balanced braces stays balanced where further braces are put around some of its parts,
even if such a part alone is not balanced. What such an insertion keeps up is that every beginning
of the new text is at least as deep as some beginning of the old one (`Rises`). Unlike the balance
of a text, this holds part by part.

* `Rises.of_filter`: only braces matter.
* `Rises.append`, `Rises.enclose`: texts put together, and braces around them.
* `Rises.balanced`: the balance of a whole text.
* `bareBraces_append`: the braces that no backslash stands before.
-/

namespace ProseMath.Text

/-- An opening or a closing brace. -/
def isBrace (c : Char) : Bool := c == '{' || c == '}'

/-- No beginning of a text closes more braces than it opens, and the whole text as many. -/
def BracesBalanced (t : Text) : Prop :=
  (∀ beginning, beginning <+: t → beginning.count '}' ≤ beginning.count '{') ∧
    t.count '{' = t.count '}'

instance : DecidablePred BracesBalanced := fun t =>
  decidable_of_iff
    (t.inits.all (fun beginning => beginning.count '}' ≤ beginning.count '{') ∧
      t.count '{' = t.count '}')
    (by simp [BracesBalanced])

/-- Opening less closing braces. -/
def braceLevel (t : Text) : Int := t.count '{' - t.count '}'

/-- The second text has the braces of the first one and maybe more, ends at the same level, and
never goes below all levels of the first one. -/
structure Rises (s t : Text) : Prop where
  kept : (s.filter isBrace).Sublist (t.filter isBrace)
  level : braceLevel t = braceLevel s
  above : ∀ b, b <+: t → ∃ a, a <+: s ∧ braceLevel a ≤ braceLevel b

/-! ## Levels -/

theorem braceLevel_append (a b : Text) : braceLevel (a ++ b) = braceLevel a + braceLevel b := by
  simp only [braceLevel, List.count_append]
  omega

theorem braceLevel_filter (t : Text) : braceLevel (t.filter isBrace) = braceLevel t := by
  rw [braceLevel, List.count_filter rfl, List.count_filter rfl, braceLevel]

section Rises

variable {s t u v : Text}

theorem rises_of_filter (h : t.filter isBrace = s.filter isBrace) : Rises s t where
  kept := h ▸ List.Sublist.refl _
  level := by rw [← braceLevel_filter, h, braceLevel_filter]
  above := by
    intro b hb
    have hBraces : b.filter isBrace <+: s.filter isBrace := h ▸ hb.filter isBrace
    obtain ⟨a, ha, hSame⟩ := List.prefix_filter_iff.mp hBraces
    refine ⟨a, ha, Int.le_of_eq ?_⟩
    rw [← braceLevel_filter, ← hSame, braceLevel_filter]

namespace Rises

theorem trans (h : Rises s t) (h' : Rises t u) : Rises s u where
  kept := h.kept.trans h'.kept
  level := h'.level.trans h.level
  above := by
    intro c hc
    obtain ⟨b, hb, hUpper⟩ := h'.above c hc
    obtain ⟨a, ha, hLower⟩ := h.above b hb
    exact ⟨a, ha, Int.le_trans hLower hUpper⟩

/-- Only the braces of both texts matter. -/
theorem of_filter (h : Rises u v) (hs : u.filter isBrace = s.filter isBrace)
    (ht : t.filter isBrace = v.filter isBrace) : Rises s t :=
  ((rises_of_filter hs).trans h).trans (rises_of_filter ht)

theorem append (h : Rises s t) (h' : Rises u v) : Rises (s ++ u) (t ++ v) where
  kept := by
    rw [List.filter_append, List.filter_append]
    exact h.kept.append h'.kept
  level := by rw [braceLevel_append, braceLevel_append, h.level, h'.level]
  above := by
    intro b hb
    rcases List.prefix_or_prefix_of_prefix hb (List.prefix_append t v) with hFirst | ⟨d, rfl⟩
    · obtain ⟨a, ha, hLevel⟩ := h.above b hFirst
      exact ⟨a, ha.trans (List.prefix_append s u), hLevel⟩
    · obtain ⟨a, ha, hLevel⟩ := h'.above d ((List.prefix_append_right_inj t).mp hb)
      refine ⟨s ++ a, (List.prefix_append_right_inj s).mpr ha, ?_⟩
      rw [braceLevel_append, braceLevel_append, h.level]
      omega

/-- Braces around a text lift it. -/
theorem enclose (h : Rises s t) : Rises s ('{' :: (t ++ ['}'])) := by
  have hOpened (b : Text) : braceLevel ('{' :: b) = 1 + braceLevel b := braceLevel_append ['{'] b
  have hLevel : braceLevel ('{' :: (t ++ ['}'])) = braceLevel s := by
    have hClosed : braceLevel ['}'] = -1 := rfl
    rw [hOpened, braceLevel_append, hClosed, ← h.level]
    omega
  have hKept : (s.filter isBrace).Sublist (('{' :: (t ++ ['}'])).filter isBrace) := by
    apply h.kept.trans
    apply List.Sublist.filter
    exact List.sublist_cons_of_sublist '{' (List.sublist_append_left t ['}'])
  refine ⟨hKept, hLevel, fun b hb => ?_⟩
  rcases List.prefix_cons_iff.mp hb with rfl | ⟨d, rfl, hd⟩
  · exact ⟨[], List.nil_prefix, Int.le_refl _⟩
  rcases List.prefix_concat_iff.mp hd with rfl | hInside
  · exact ⟨s, List.prefix_rfl, Int.le_of_eq hLevel.symm⟩
  · obtain ⟨a, ha, hAbove⟩ := h.above d hInside
    refine ⟨a, ha, ?_⟩
    rw [hOpened]
    omega

theorem balanced (h : Rises s t) (hs : BracesBalanced s) : BracesBalanced t := by
  have hLevel := h.level
  have hTotal := hs.2
  simp only [braceLevel] at hLevel
  refine ⟨fun b hb => ?_, by omega⟩
  obtain ⟨a, ha, hAbove⟩ := h.above b hb
  have hBeginning := hs.1 a ha
  simp only [braceLevel] at hAbove
  omega

end Rises

end Rises

/-! ## Braces without a backslash -/

/-- The braces of a text that no backslash stands before, if `before` stands before the text. -/
def bareBracesBehind (before : Char) : Text → Text
  | [] => []
  | c :: t =>
    if isBrace c && before != '\\' then c :: bareBracesBehind c t else bareBracesBehind c t

/-- The braces of a text that no backslash stands before. -/
def bareBraces (t : Text) : Text := bareBracesBehind '\n' t

section Bare

variable {before : Char} {a t : Text}

theorem bareBracesBehind_append (before : Char) (a b : Text) :
    bareBracesBehind before (a ++ b) =
      bareBracesBehind before a ++ bareBracesBehind (a.getLastD before) b := by
  induction a generalizing before with
  | nil => rfl
  | cons c a ih =>
    rw [List.cons_append, bareBracesBehind, bareBracesBehind, ih, List.getLastD_cons]
    split
    · rfl
    · rfl

theorem bareBracesBehind_of_ne (h : before ≠ '\\') (t : Text) :
    bareBracesBehind before t = bareBraces t := by
  cases t with
  | nil => rfl
  | cons c t =>
    have hBefore : (before != '\\') = ('\n' != '\\') := bne_iff_ne.mpr h
    rw [bareBraces, bareBracesBehind, bareBracesBehind, hBefore]

theorem bareBraces_append (h : a.getLast? ≠ some '\\') (b : Text) :
    bareBraces (a ++ b) = bareBraces a ++ bareBraces b := by
  have hLast : a.getLastD '\n' ≠ '\\' := by
    rw [List.getLastD_eq_getLast?]
    cases hEnd : a.getLast? with
    | none => decide
    | some c => exact fun hc => h (hEnd.trans (congrArg some hc))
  rw [← bareBracesBehind_of_ne hLast b]
  exact bareBracesBehind_append '\n' a b

theorem bareBracesBehind_eq_nil (h : ∀ c ∈ t, isBrace c = false) (before : Char) :
    bareBracesBehind before t = [] := by
  induction t generalizing before with
  | nil => rfl
  | cons c t ih =>
    obtain ⟨hc, ht⟩ := List.forall_mem_cons.mp h
    rw [bareBracesBehind, hc, Bool.false_and, if_neg Bool.false_ne_true, ih ht]

end Bare

end ProseMath.Text
