import Mathlib.Tactic.Common
import ProseMath.Latex.Prose
import ProseMath.Proofs.Text.Padding

/-!
# Paragraphs and the lines they keep

Marks are looked for within a line, so a paragraph without dollar signs is written line by line, and
only its trimmed lines matter.

* `wrapMarked_append`: marks are replaced on both sides of a place that no pair of marks goes over.
* `paragraph_eq_layout`: a paragraph is written from the lines it keeps.
* `paragraph_of_padded`: blanks at the ends of lines do not matter.
-/

namespace ProseMath.Latex

open Text

/-! ## Marks -/

section Mark

variable {mark : Char} {command : Text}

theorem wrapMarked_cons (c : Char) (t : Text) :
    wrapMarked mark command (c :: t) =
      if c = mark ∧ t.takeWhile (isMarkable mark) ≠ [] ∧
          (t.dropWhile (isMarkable mark)).head? = some mark then
        withArgument command (t.takeWhile (isMarkable mark)) ++
          wrapMarked mark command (t.dropWhile (isMarkable mark)).tail
      else c :: wrapMarked mark command t := by
  have hDrop : t.drop (t.takeWhile (isMarkable mark)).length = t.dropWhile (isMarkable mark) := by
    have hSplit := congrArg (List.drop (t.takeWhile (isMarkable mark)).length)
      (List.takeWhile_append_dropWhile (p := isMarkable mark) (l := t))
    rw [List.drop_left] at hSplit
    exact hSplit.symm
  rw [wrapMarked]
  simp only [hDrop, ← List.tail_drop]

theorem wrapMarked_cons_of_ne {c : Char} (h : c ≠ mark) (t : Text) :
    wrapMarked mark command (c :: t) = c :: wrapMarked mark command t := by
  rw [wrapMarked_cons, if_neg fun hMark => h hMark.1]

/-- No pair of marks goes over a place behind which a line ends before the next mark. -/
theorem wrapMarked_append {b : Text} (hStop : (b.dropWhile (isMarkable mark)).head? ≠ some mark)
    (a : Text) :
    wrapMarked mark command (a ++ b) = wrapMarked mark command a ++ wrapMarked mark command b := by
  generalize hLength : a.length = n
  induction n using Nat.strongRecOn generalizing a with
  | ind n ih =>
    cases a with
    | nil =>
      rw [wrapMarked]
      rfl
    | cons c t =>
      rw [List.length_cons] at hLength
      have hRest := ih t.length (by omega) t rfl
      rw [List.cons_append, wrapMarked_cons, wrapMarked_cons]
      rcases run_append (p := isMarkable mark) t with hAll | ⟨hSome, hSplit⟩
      · -- the mark has no partner in front of the place, and none behind it
        have hNone : (t.dropWhile (isMarkable mark)).head? ≠ some mark := by
          rw [List.dropWhile_eq_nil_iff.mpr hAll]
          simp
        have hBehind : ((t ++ b).dropWhile (isMarkable mark)).head? ≠ some mark := by
          rwa [List.dropWhile_append_of_pos hAll]
        rw [if_neg fun h => hBehind h.2.2, if_neg fun h => hNone h.2.2, hRest, List.cons_append]
      · obtain ⟨hTake, hDrop⟩ := hSplit b
        obtain ⟨d, rest, hRun⟩ := List.exists_cons_of_ne_nil hSome
        rw [hTake, hDrop, hRun, List.cons_append, List.head?_cons, List.head?_cons, List.tail_cons,
          List.tail_cons]
        split
        · have hShorter := (List.dropWhile_sublist (isMarkable mark) (l := t)).length_le
          rw [hRun, List.length_cons] at hShorter
          rw [ih rest.length (by omega) rest rfl, List.append_assoc]
        · rw [hRest, List.cons_append]

theorem wrapMarked_newline (hMark : mark ≠ '\n') (a b : Text) :
    wrapMarked mark command (a ++ '\n' :: b) =
      wrapMarked mark command a ++ '\n' :: wrapMarked mark command b := by
  rw [wrapMarked_append, wrapMarked_cons_of_ne hMark.symm]
  have hNewline : ¬ isMarkable mark '\n' := by simp [isMarkable]
  rw [List.dropWhile_cons_of_neg hNewline, List.head?_cons]
  intro h
  exact hMark (Option.some.inj h).symm

theorem wrapMarked_spaces (hMark : isSpace mark = false) {before after : Text}
    (hBefore : ∀ c ∈ before, isSpace c) (hAfter : ∀ c ∈ after, isSpace c) (t : Text) :
    wrapMarked mark command (before ++ t ++ after) =
      before ++ wrapMarked mark command t ++ after := by
  have hNotMark : ∀ {spaces : Text}, (∀ c ∈ spaces, isSpace c) → ∀ a,
      wrapMarked mark command (spaces ++ a) = spaces ++ wrapMarked mark command a := by
    intro spaces hSpaces a
    induction spaces with
    | nil => rfl
    | cons c spaces ih =>
      obtain ⟨hc, hSpaces⟩ := List.forall_mem_cons.mp hSpaces
      have hNe : c ≠ mark := by
        rintro rfl
        cases hc.symm.trans hMark
      rw [List.cons_append, wrapMarked_cons_of_ne hNe, ih hSpaces, List.cons_append]
  have hStop : (after.dropWhile (isMarkable mark)).head? ≠ some mark := by
    intro hHead
    have hSpace := hAfter mark (List.dropWhile_subset _ (List.mem_of_mem_head? hHead))
    cases hSpace.symm.trans hMark
  have hEnd := hNotMark hAfter []
  have hNil : wrapMarked mark command [] = [] := by rw [wrapMarked]
  rw [List.append_nil, hNil, List.append_nil] at hEnd
  rw [wrapMarked_append hStop, hNotMark hBefore, hEnd]

/-- A character that is written comes from the text or from a command. -/
theorem not_mem_wrapMarked {d : Char} (hCommand : d ∉ withArgument command []) {t : Text}
    (h : d ∉ t) : d ∉ wrapMarked mark command t := by
  generalize hLength : t.length = n
  induction n using Nat.strongRecOn generalizing t with
  | ind n ih =>
    cases t with
    | nil =>
      rw [wrapMarked]
      exact h
    | cons c t =>
      rw [List.length_cons] at hLength
      have hText : d ∉ t := fun hd => h (List.mem_cons_of_mem _ hd)
      rw [wrapMarked_cons]
      split
      · have hShorter := (List.dropWhile_sublist (isMarkable mark) (l := t)).length_le
        have hMarked : d ∉ t.takeWhile (isMarkable mark) :=
          fun hd => hText (List.takeWhile_subset _ hd)
        have hBehind : d ∉ (t.dropWhile (isMarkable mark)).tail :=
          fun hd => hText (List.dropWhile_subset _ (List.mem_of_mem_tail hd))
        have hRest := ih _ (by rw [List.length_tail]; omega) hBehind rfl
        simp only [withArgument, List.mem_append, List.mem_cons, not_or] at hCommand ⊢
        exact ⟨⟨⟨hCommand.1.1, hCommand.1.2.1, hMarked⟩, hCommand.2⟩, hRest⟩
      · intro hd
        rcases List.mem_cons.mp hd with rfl | hd
        · exact h List.mem_cons_self
        · exact ih t.length (by omega) hText rfl hd

/-- Where marks are replaced there are braces. -/
theorem exists_mem_wrapMarked {p : Char → Prop} (hBrace : p '{') {t : Text} (h : ∃ c ∈ t, p c) :
    ∃ c ∈ wrapMarked mark command t, p c := by
  induction t with
  | nil => simp at h
  | cons c t ih =>
    rw [wrapMarked_cons]
    split
    · exact ⟨'{', by simp [withArgument], hBrace⟩
    · obtain ⟨d, hd, hp⟩ := h
      rcases List.mem_cons.mp hd with rfl | hd
      · exact ⟨d, List.mem_cons_self, hp⟩
      · obtain ⟨e, he, hp⟩ := ih ⟨d, hd, hp⟩
        exact ⟨e, List.mem_cons_of_mem _ he, hp⟩

end Mark

/-- Both kinds of marks replaced by their commands. -/
def wrapBoth (t : Text) : Text :=
  wrapMarked '*' "\\emph".toList (wrapMarked '\\' "\\textit".toList t)

theorem dollar_not_mem_wrapBoth {t : Text} (h : '$' ∉ t) : '$' ∉ wrapBoth t :=
  not_mem_wrapMarked (by decide) (not_mem_wrapMarked (by decide) h)

theorem wrapBoth_newline (a b : Text) :
    wrapBoth (a ++ '\n' :: b) = wrapBoth a ++ '\n' :: wrapBoth b := by
  rw [wrapBoth, wrapMarked_newline (by decide), wrapMarked_newline (by decide)]
  rfl

theorem wrapBoth_spaces {before after : Text} (hBefore : ∀ c ∈ before, isSpace c)
    (hAfter : ∀ c ∈ after, isSpace c) (t : Text) :
    wrapBoth (before ++ t ++ after) = before ++ wrapBoth t ++ after := by
  rw [wrapBoth, wrapMarked_spaces (by decide) hBefore hAfter,
    wrapMarked_spaces (by decide) hBefore hAfter]
  rfl

theorem keptLines_wrapBoth_trim (t : Text) :
    keptLines (wrapBoth (trim t)) = keptLines (wrapBoth t) := by
  obtain ⟨before, after, hBefore, hAfter, hText⟩ := exists_trim t
  have hBoth := congrArg wrapBoth hText
  rw [wrapBoth_spaces hBefore hAfter] at hBoth
  rw [hBoth, keptLines_spaces hBefore hAfter]

/-- Blanks at the end of a line stay there when its marks are replaced. -/
theorem keptLines_wrapBoth_of_padded {t u : Text} (h : Padded t u) :
    keptLines (wrapBoth u) = keptLines (wrapBoth t) := by
  have hNil : ∀ c ∈ ([] : Text), isSpace c := by simp
  have hLine {line blanks : Text} (hBlanks : ∀ c ∈ blanks, Token.isBlank c) :
      keptLines (wrapBoth (line ++ blanks)) = keptLines (wrapBoth line) := by
    have hSpaces : ∀ c ∈ blanks, isSpace c := fun c hc => Token.isSpace_of_isBlank (hBlanks c hc)
    have hBoth := wrapBoth_spaces hNil hSpaces line
    rw [List.nil_append, List.nil_append] at hBoth
    rw [hBoth]
    exact keptLines_spaces hNil hSpaces _
  induction h with
  | last line hBlanks => exact hLine hBlanks
  | newline line hBlanks _ ih =>
    rw [wrapBoth_newline, wrapBoth_newline, keptLines_newline, keptLines_newline, hLine hBlanks, ih]

/-! ## Texts without dollar signs -/

section Marker

variable {first : Char} {a t : Text}

theorem not_isPrefixOf_cons {pattern : Text} (hPattern : pattern.head? = some first) {c : Char}
    (hc : c ≠ first) (t : Text) : pattern.isPrefixOf (c :: t) = false := by
  obtain ⟨rest, rfl⟩ := List.head?_eq_some_iff.mp hPattern
  rw [List.isPrefixOf, beq_false_of_ne (Ne.symm hc), Bool.false_and]

/-- Nothing is replaced in front of the first character that all left sides begin with. -/
theorem replaceEach_skip {table : List (Text × Text)}
    (hTable : ∀ entry ∈ table, entry.1.head? = some first) (h : first ∉ a) (t : Text) :
    replaceEach table (a ++ t) = a ++ replaceEach table t := by
  induction a with
  | nil => rfl
  | cons c a ih =>
    rw [List.mem_cons, not_or] at h
    have hNone : table.find? (fun entry => entry.1.isPrefixOf (c :: (a ++ t))) = none := by
      rw [List.find?_eq_none]
      intro entry hEntry
      rw [not_isPrefixOf_cons (hTable entry hEntry) (Ne.symm h.1)]
      exact Bool.false_ne_true
    rw [List.cons_append, replaceEach, hNone]
    exact congrArg _ (ih h.2)

theorem replaceEach_of_not_mem {table : List (Text × Text)}
    (hTable : ∀ entry ∈ table, entry.1.head? = some first) (h : first ∉ t) :
    replaceEach table t = t := by
  have hNil : replaceEach table [] = [] := by rw [replaceEach]
  have hSkip := replaceEach_skip hTable h []
  rwa [hNil, List.append_nil] at hSkip

theorem replaceEach_entry {table : List (Text × Text)} {old new : Text} (hOld : old ≠ [])
    (h : table.find? (fun entry => entry.1.isPrefixOf (old ++ t)) = some (old, new)) :
    replaceEach table (old ++ t) = new ++ replaceEach table t := by
  obtain ⟨c, rest, rfl⟩ := List.exists_cons_of_ne_nil hOld
  rw [List.cons_append] at h
  rw [List.cons_append, replaceEach, h]
  exact congrArg (fun tail => new ++ replaceEach table tail) List.drop_left

theorem splitAtFirst?_skip {pattern : Text} (hPattern : pattern.head? = some first) (h : first ∉ a)
    (t : Text) :
    splitAtFirst? pattern (a ++ t) =
      (splitAtFirst? pattern t).map fun parts => (a ++ parts.1, parts.2) := by
  induction a with
  | nil => exact Option.map_id'.symm
  | cons c a ih =>
    rw [List.mem_cons, not_or] at h
    have hNot : ¬ pattern.isPrefixOf (c :: (a ++ t)) := by
      rw [not_isPrefixOf_cons hPattern (Ne.symm h.1)]
      exact Bool.false_ne_true
    rw [List.cons_append, splitAtFirst?, if_neg hNot, ih h.2, Option.map_map]
    rfl

theorem splitAtFirst?_of_not_mem {pattern : Text} (hPattern : pattern.head? = some first)
    (h : first ∉ t) : splitAtFirst? pattern t = none := by
  have hSkip := splitAtFirst?_skip hPattern h []
  have hSome : ¬ pattern.isEmpty := by
    intro hEmpty
    rw [List.isEmpty_iff.mp hEmpty] at hPattern
    cases hPattern
  rwa [splitAtFirst?, if_neg hSome, List.append_nil] at hSkip

theorem italicMarkers_of_none (h : splitAtFirst? italicStart t = none) : italicMarkers t = t := by
  rw [italicMarkers]
  split
  · rfl
  · rename_i hSome
    rw [h] at hSome
    cases hSome

theorem outsideMath_of_not_mem (f : Text → Text) (h : '$' ∉ t) : outsideMath f t = f t := by
  rw [outsideMath, List.splitOn_eq_singleton h]
  exact List.append_nil _

end Marker

/-! ## Lines -/

/-- Lines that are trimmed and not blank, as a paragraph. -/
def layout (kept : List Text) : Text :=
  if kept.any isItem then list kept else joinLines (kept.map proseLine) ++ ['\n']

section Kept

variable (lines : List Text)

theorem any_isItem_kept :
    ((lines.map trim).filter fun line => !line.isEmpty).any isItem = lines.any isItem := by
  induction lines with
  | nil => rfl
  | cons line rest ih =>
    rw [List.map_cons, List.any_cons]
    by_cases hBlank : trim line = []
    · have hItem : isItem line = false := by simp [isItem, hBlank]
      rw [List.filter_cons_of_neg (by simp [hBlank]), ih, hItem, Bool.false_or]
    · have hItem : isItem (trim line) = isItem line := by rw [isItem, isItem, trim_trim]
      rw [List.filter_cons_of_pos (by simpa using hBlank), List.any_cons, ih, hItem]

theorem list_kept : list ((lines.map trim).filter fun line => !line.isEmpty) = list lines := by
  rw [list, list]
  generalize ListLayout.start = s
  induction lines generalizing s with
  | nil => rfl
  | cons line rest ih =>
    rw [List.map_cons, List.foldl_cons]
    by_cases hBlank : trim line = []
    · have hLine : s.line line = s := by rw [ListLayout.line, hBlank]
      rw [List.filter_cons_of_neg (by simp [hBlank]), hLine, ih]
    · have hLine : s.line (trim line) = s.line line := by
        rw [ListLayout.line, ListLayout.line, trim_trim]
      rw [List.filter_cons_of_pos (by simpa using hBlank), List.foldl_cons, hLine, ih]

end Kept

theorem paragraph_eq_layout {t : Text} (h : '$' ∉ t) :
    paragraph t = layout (keptLines (wrapBoth t)) := by
  have hMath : mathMarkers t = t :=
    replaceEach_of_not_mem (List.all_iff_forall_prop.mp (by decide)) h
  have hItalics : italics t = wrapBoth t := outsideMath_of_not_mem _ h
  have hMarkers : italicMarkers (wrapBoth t) = wrapBoth t :=
    italicMarkers_of_none (splitAtFirst?_of_not_mem (by decide) (dollar_not_mem_wrapBoth h))
  rw [paragraph, hMath, hItalics, hMarkers, layout, keptLines, any_isItem_kept, list_kept]

theorem paragraph_of_padded {t u : Text} (h : Padded t u) (hDollar : '$' ∉ u) :
    paragraph (trim u) = paragraph (trim t) := by
  have hTrim {v : Text} (hv : '$' ∉ v) : '$' ∉ trim v := fun hMem => hv (trim_subset v hMem)
  have hFirst : '$' ∉ t := fun hMem => hDollar (h.subset hMem)
  rw [paragraph_eq_layout (hTrim hDollar), paragraph_eq_layout (hTrim hFirst),
    keptLines_wrapBoth_trim, keptLines_wrapBoth_trim, keptLines_wrapBoth_of_padded h]

end ProseMath.Latex
