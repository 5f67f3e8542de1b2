import Mathlib.Tactic.Common
import ProseMath.Proofs.Text.Trim
import ProseMath.Proofs.Token.Spelling

/-!
# Blanks at the ends of lines

One text is another with some blanks more at the ends of its lines (`Padded`), as when line feeds
are written with a carriage return in front of them. The trimmed lines that are not blank
(`keptLines`) do not show such blanks.

* `padded_carriageReturns`: carriage returns in front of all line feeds.
* `lines_induction`: induction on the lines of a text.
* `exists_lines_append`, `exists_line_append`: the line in which two texts meet.
* `keptLines_newline`: lines are kept each for itself.
* `keptLines_spaces`: white space around a text does not matter.
-/

namespace ProseMath.Text

open Token (isBlank)

/-- The second text is the first one with blanks inserted in front of line feeds and at the end. -/
inductive Padded : Text → Text → Prop
  | last (line : Text) {blanks : Text} (hBlanks : ∀ c ∈ blanks, isBlank c) :
    Padded line (line ++ blanks)
  | newline (line : Text) {blanks t u : Text} (hBlanks : ∀ c ∈ blanks, isBlank c)
    (hRest : Padded t u) : Padded (line ++ '\n' :: t) (line ++ blanks ++ '\n' :: u)

namespace Padded

variable {t u : Text}

theorem append_left (a : Text) (h : Padded t u) : Padded (a ++ t) (a ++ u) := by
  cases h with
  | last _ hBlanks =>
    rw [← List.append_assoc]
    exact last (a ++ t) hBlanks
  | newline line hBlanks hRest =>
    have hAppend := newline (a ++ line) hBlanks hRest
    simpa only [List.append_assoc] using hAppend

theorem subset (h : Padded t u) : t ⊆ u := by
  induction h with
  | last line _ => exact List.subset_append_left _ _
  | newline line _ _ ih =>
    intro c hc
    rcases List.mem_append.mp hc with hc | hc
    · exact List.mem_append_left _ (List.mem_append_left _ hc)
    · exact List.mem_append_right _ (List.cons_subset_cons _ ih hc)

end Padded

/-- A carriage return in front of every line feed. -/
def carriageReturns (t : Text) : Text := t.flatMap fun c => if c = '\n' then ['\r', '\n'] else [c]

theorem padded_carriageReturns (t : Text) : Padded t (carriageReturns t) := by
  induction t with
  | nil => exact .last [] (by simp)
  | cons c t ih =>
    rw [carriageReturns, List.flatMap_cons]
    by_cases hNewline : c = '\n'
    · rw [if_pos hNewline, hNewline]
      exact @Padded.newline [] ['\r'] _ _ (by simp [isBlank]) ih
    · rw [if_neg hNewline]
      exact ih.append_left [c]

/-! ## Lines -/

theorem lines_append_newline (a b : Text) : lines (a ++ '\n' :: b) = lines a ++ lines b :=
  List.splitOnP_append_cons a b rfl

theorem lines_of_not_mem {t : Text} (h : '\n' ∉ t) : lines t = [t] := List.splitOn_eq_singleton h

/-- Induction on the lines of a text. -/
@[elab_as_elim]
theorem lines_induction {motive : Text → Prop} (last : ∀ line : Text, '\n' ∉ line → motive line)
    (newline : ∀ line t : Text, '\n' ∉ line → motive t → motive (line ++ '\n' :: t)) (t : Text) :
    motive t := by
  suffices hBefore : ∀ before : Text, '\n' ∉ before → motive (before ++ t) from
    hBefore [] List.not_mem_nil
  induction t with
  | nil =>
    intro before hBefore
    rw [List.append_nil]
    exact last before hBefore
  | cons c t ih =>
    intro before hBefore
    by_cases hc : c = '\n'
    · rw [hc]
      exact newline before t hBefore (ih [] List.not_mem_nil)
    · have hMore : '\n' ∉ before ++ [c] := by simp [hBefore, Ne.symm hc]
      have hRest := ih (before ++ [c]) hMore
      rwa [List.append_assoc] at hRest

theorem of_mem_lines {t line : Text} (h : line ∈ lines t) : '\n' ∉ line ∧ line ⊆ t := by
  induction t using lines_induction with
  | last t hLine =>
    rw [lines_of_not_mem hLine, List.mem_singleton] at h
    rw [h]
    exact ⟨hLine, List.Subset.refl t⟩
  | newline first t hLine ih =>
    rw [lines_append_newline, lines_of_not_mem hLine] at h
    rcases List.mem_append.mp h with h | h
    · rw [List.mem_singleton.mp h]
      exact ⟨hLine, List.subset_append_left _ _⟩
    · obtain ⟨hNewline, hSubset⟩ := ih h
      exact ⟨hNewline, fun c hc =>
        List.mem_append_right _ (List.mem_cons_of_mem _ (hSubset hc))⟩

/-- The last line of a text goes on where another text follows. -/
theorem exists_lines_append (a : Text) :
    ∃ above last, lines a = above ++ [last] ∧
      ∀ b, lines (a ++ b) = above ++ lines (last ++ b) := by
  induction a using lines_induction with
  | last line hLine => exact ⟨[], line, lines_of_not_mem hLine, fun b => rfl⟩
  | newline line t hLine ih =>
    obtain ⟨above, last, hLines, hMore⟩ := ih
    refine ⟨line :: above, last, ?_, fun b => ?_⟩
    · rw [lines_append_newline, lines_of_not_mem hLine, hLines]
      rfl
    · rw [List.append_assoc, List.cons_append, lines_append_newline, lines_of_not_mem hLine, hMore]
      rfl

theorem of_lines_eq_concat {a last : Text} {above : List Text} (h : lines a = above ++ [last]) :
    '\n' ∉ last ∧ last ⊆ a := by
  apply of_mem_lines
  rw [h]
  exact List.mem_append_right above (List.mem_singleton_self last)

/-- The first line of a text belongs to a line that stands before it. -/
theorem exists_line_append (b : Text) :
    ∃ first, first ⊆ b ∧ ∀ a, '\n' ∉ a → a ++ first ∈ lines (a ++ b) := by
  by_cases hNewline : '\n' ∈ b
  · obtain ⟨first, rest, rfl, hFirst⟩ := List.eq_append_cons_of_mem hNewline
    refine ⟨first, List.subset_append_left _ _, fun a ha => ?_⟩
    rw [← List.append_assoc, lines_append_newline, lines_of_not_mem (by simp [ha, hFirst])]
    exact List.mem_cons_self
  · refine ⟨b, List.Subset.refl b, fun a ha => ?_⟩
    rw [lines_of_not_mem (by simp [ha, hNewline])]
    exact List.mem_singleton_self _

/-- The trimmed lines of a text, without the blank ones. -/
def keptLines (t : Text) : List Text := ((lines t).map trim).filter fun line => !line.isEmpty

theorem keptLines_newline (a b : Text) :
    keptLines (a ++ '\n' :: b) = keptLines a ++ keptLines b := by
  rw [keptLines, lines_append_newline, List.map_append, List.filter_append]
  rfl

theorem of_mem_keptLines {t line : Text} (h : line ∈ keptLines t) :
    trim line ≠ [] ∧ '\n' ∉ line ∧ line ⊆ t := by
  obtain ⟨hMem, hSome⟩ := List.mem_filter.mp h
  obtain ⟨source, hSource, rfl⟩ := List.mem_map.mp hMem
  obtain ⟨hNewline, hSubset⟩ := of_mem_lines hSource
  have hTrim := trim_subset source
  refine ⟨?_, fun hc => hNewline (hTrim hc), fun c hc => hSubset (hTrim hc)⟩
  rw [trim_trim]
  simpa using hSome

theorem isSpace_of_keptLines_eq_nil {t : Text} (h : keptLines t = []) : ∀ c ∈ t, isSpace c := by
  have hLine {line : Text} (hNewline : '\n' ∉ line) (hNone : keptLines line = []) :
      ∀ c ∈ line, isSpace c := by
    rw [keptLines, lines_of_not_mem hNewline] at hNone
    exact trim_eq_nil_iff.mp (by simpa using hNone)
  induction t using lines_induction with
  | last t hNewline => exact hLine hNewline h
  | newline first t hNewline ih =>
    rw [keptLines_newline, List.append_eq_nil_iff] at h
    exact List.forall_mem_append.mpr
      ⟨hLine hNewline h.1, List.forall_mem_cons.mpr ⟨by decide, ih h.2⟩⟩

/-- White space around a text can be on lines of its own or on the first and the last line. -/
theorem keptLines_spaces {before after : Text} (hBefore : ∀ c ∈ before, isSpace c)
    (hAfter : ∀ c ∈ after, isSpace c) (t : Text) :
    keptLines (before ++ t ++ after) = keptLines t := by
  -- the text is cut at some line feed until there is only one line
  generalize hLength : (before ++ t ++ after).length = n
  induction n using Nat.strongRecOn generalizing before t after with
  | ind n ih =>
    have hNil : ∀ c ∈ ([] : Text), isSpace c := by simp
    by_cases hFirst : '\n' ∈ before
    · obtain ⟨front, back, rfl⟩ := List.append_of_mem hFirst
      obtain ⟨hFront, hBack⟩ := List.forall_mem_append.mp hBefore
      have hBack := (List.forall_mem_cons.mp hBack).2
      simp only [List.length_append, List.length_cons] at hLength
      have hNone := ih front.length (by omega) hFront hNil [] (by simp)
      have hRest := ih (back ++ t ++ after).length (by simp; omega) hBack hAfter t rfl
      rw [List.append_nil, List.append_nil] at hNone
      rw [List.append_assoc, List.append_assoc, List.cons_append, keptLines_newline, hNone,
        ← List.append_assoc, hRest]
      rfl
    by_cases hLast : '\n' ∈ after
    · obtain ⟨front, back, rfl⟩ := List.append_of_mem hLast
      obtain ⟨hFront, hBack⟩ := List.forall_mem_append.mp hAfter
      have hBack := (List.forall_mem_cons.mp hBack).2
      simp only [List.length_append, List.length_cons] at hLength
      have hNone := ih back.length (by omega) hBack hNil [] (by simp)
      have hRest := ih (before ++ t ++ front).length (by simp; omega) hBefore hFront t rfl
      rw [List.append_nil, List.append_nil] at hNone
      rw [← List.append_assoc, keptLines_newline, hNone, hRest]
      exact List.append_nil _
    by_cases hInside : '\n' ∈ t
    · obtain ⟨front, back, rfl⟩ := List.append_of_mem hInside
      simp only [List.length_append, List.length_cons] at hLength
      have hFront := ih (before ++ front).length (by simp; omega) hBefore hNil front (by simp)
      have hBack := ih (back ++ after).length (by simp; omega) hNil hAfter back rfl
      rw [List.append_nil] at hFront
      rw [← List.append_assoc, List.append_assoc, List.cons_append, keptLines_newline,
        keptLines_newline, hFront]
      exact congrArg _ hBack
    · have hLine : '\n' ∉ before ++ t ++ after := by
        simp only [List.mem_append, not_or]
        exact ⟨⟨hFirst, hInside⟩, hLast⟩
      rw [keptLines, lines_of_not_mem hLine, List.map_singleton, trim_append_right _ hAfter,
        trim_append_left hBefore, keptLines, lines_of_not_mem hInside]
      rfl

end ProseMath.Text
