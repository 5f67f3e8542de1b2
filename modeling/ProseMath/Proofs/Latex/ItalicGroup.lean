import Mathlib.Data.Bool.AllAny
import Mathlib.Tactic.Common
import ProseMath.Proofs.Latex.BraceEscape
import ProseMath.Proofs.Latex.WrittenLine
import ProseMath.Proofs.Text.BraceLevel

/-!
# Italic text between marker words

Text between two marker words becomes the argument of a command, whether or not it is in one line.
But braces are escaped in each line anew. In one line the closing brace finds the opening one and
both are kept; in any other line it has no partner and gets a backslash, so that the argument is
never closed.

* `LaidOut.rises_bareBraces`: the layout adds closed groups only.
* `bareBraces_writtenLine`, `bareBraces_opening`, `bareBraces_closing`, `bareBraces_both`: the
  braces of a line that holds none, one or both of those around the argument.
* `paragraph_italic`: the lines of italic text.
* `italic_group_closed_iff`: when the argument is closed.
-/

namespace ProseMath.Latex

open Text

/-! ## Braces of a layout -/

/-- The braces that what is written of some lines has without a backslash. -/
def lineBraces (lines : List Text) : Text := lines.flatMap fun line => bareBraces (writtenLine line)

theorem lineBraces_cons (line : Text) (rest : List Text) :
    lineBraces (line :: rest) = bareBraces (writtenLine line) ++ lineBraces rest :=
  List.flatMap_cons

theorem lineBraces_append (a b : List Text) : lineBraces (a ++ b) = lineBraces a ++ lineBraces b :=
  List.flatMap_append

theorem LaidOut.rises_bareBraces {lines : List Text} {t : Text} (h : LaidOut lines t) :
    Rises (lineBraces lines) (bareBraces t) := by
  have hPieces : ∀ piece ∈ layoutPieces, piece.getLast? ≠ some '\\' ∧
      (bareBraces piece = [] ∨ bareBraces piece = ['{', '}']) :=
    List.all_iff_forall_prop.mp (by decide)
  induction h with
  | nil => exact rises_of_filter rfl
  | @line line ending t _ hEnding _ ih =>
    -- no end of a line begins with a brace
    have hLine : bareBraces (writtenLine line ++ (ending ++ t)) =
        bareBraces (writtenLine line) ++ bareBraces t := by
      rw [bareBraces, bareBracesBehind_append]
      rcases hEnding with rfl | rfl
      · rfl
      · rfl
    rw [lineBraces_cons, hLine]
    exact (rises_of_filter rfl).append ih
  | @piece piece t _ hPiece _ ih =>
    obtain ⟨hLast, hBraces⟩ := hPieces piece hPiece
    have hNil : Rises [] [] := rises_of_filter rfl
    have hGroup : Rises [] (bareBraces piece) := by
      rcases hBraces with hNone | hBoth
      · rw [hNone]
        exact hNil
      · rw [hBoth]
        exact hNil.enclose
    rw [bareBraces_append hLast]
    exact hGroup.append ih

theorem lineBraces_kept (lines : List Text) :
    lineBraces ((lines.map trim).filter fun line => !line.isEmpty) = lineBraces lines := by
  induction lines with
  | nil => rfl
  | cons line rest ih =>
    rw [List.map_cons, lineBraces_cons, ← ih]
    by_cases hBlank : trim line = []
    · rw [List.filter_cons_of_neg (by simp [hBlank]), writtenLine_of_blank hBlank]
      rfl
    · rw [List.filter_cons_of_pos (by simpa using hBlank), lineBraces_cons, writtenLine_trim]

theorem rises_bareBraces_list (lines : List Text) :
    Rises (lineBraces lines) (bareBraces (list lines)) := by
  rw [← lineBraces_kept]
  exact (laidOut_list lines).rises_bareBraces

/-! ## Texts without braces -/

/-- The characters of mathematics, arguments, commands and emphasis. -/
def markup : Text := ['$', '{', '}', '\\', '*']

/-- A text without mathematics, arguments, commands and emphasis. -/
def IsUnmarked (t : Text) : Prop := ∀ c ∈ t, c ∉ markup

instance : DecidablePred IsUnmarked := fun t =>
  decidable_of_iff (t.all fun c => !markup.contains c) (by simp [IsUnmarked])

/-- A text that leaves the braces around it alone: it has none, all its mathematics are closed, and
no backslash stands at its end. -/
structure IsQuiet (t : Text) : Prop where
  braces : ∀ c ∈ t, isBrace c = false
  dollars : t.count '$' % 2 = 0
  last : t.getLast? ≠ some '\\'

section Quiet

variable {a b t : Text}

theorem IsUnmarked.subset (h : IsUnmarked b) (hSubset : a ⊆ b) : IsUnmarked a :=
  fun c hc => h c (hSubset hc)

theorem IsUnmarked.not_mem (h : IsUnmarked t) {c : Char} (hc : c ∈ markup) : c ∉ t :=
  fun hMem => h c hMem hc

theorem isUnmarked_of_isSpace (h : ∀ c ∈ t, isSpace c) : IsUnmarked t := by
  have hMarkup : ∀ c ∈ markup, isSpace c = false := List.all_iff_forall_prop.mp (by decide)
  intro c hc hMark
  cases (h c hc).symm.trans (hMarkup c hMark)

theorem IsUnmarked.isQuiet (h : IsUnmarked t) : IsQuiet t where
  braces := by
    intro c hc
    rw [isBrace, Bool.or_eq_false_iff, beq_eq_false_iff_ne, beq_eq_false_iff_ne]
    exact ⟨fun hBrace => h.not_mem (by decide) (hBrace ▸ hc),
      fun hBrace => h.not_mem (by decide) (hBrace ▸ hc)⟩
  dollars := by rw [List.count_eq_zero.mpr (h.not_mem (by decide))]
  last := fun hLast => h.not_mem (by decide) (List.mem_of_getLast? hLast)

theorem getLast?_append_ne {c : Char} (ha : a.getLast? ≠ some c) (hb : b.getLast? ≠ some c) :
    (a ++ b).getLast? ≠ some c := by
  rw [List.getLast?_append]
  cases hEnd : b.getLast? with
  | none => exact ha
  | some d => exact fun hd => hb (hEnd.trans hd)

theorem IsQuiet.append (ha : IsQuiet a) (hb : IsQuiet b) : IsQuiet (a ++ b) where
  braces := List.forall_mem_append.mpr ⟨ha.braces, hb.braces⟩
  dollars := by
    rw [List.count_append, Nat.add_mod, ha.dollars, hb.dollars]
  last := getLast?_append_ne ha.last hb.last

theorem isQuiet_inlineMath (hDollar : '$' ∉ t) (hBraces : ∀ c ∈ t, isBrace c = false) :
    IsQuiet (inlineMath t) where
  braces := by
    intro c hc
    rw [inlineMath, List.cons_append, List.mem_cons, List.mem_append, List.mem_singleton] at hc
    rcases hc with rfl | hc | rfl
    · rfl
    · exact hBraces c hc
    · rfl
  dollars := by
    rw [inlineMath, List.count_append, List.count_cons_self, List.count_eq_zero.mpr hDollar]
    rfl
  last := by
    rw [inlineMath, List.getLast?_concat]
    decide

theorem isQuiet_substitute {table : WordTable} (hDollars : ∀ entry ∈ table, '$' ∉ entry.2)
    (hBraces : ∀ entry ∈ table, ∀ c ∈ entry.2, isBrace c = false) {runs : List Text}
    (h : IsUnmarked runs.flatten) : IsQuiet (substitute table runs) := by
  induction runs with
  | nil => exact h.isQuiet
  | cons run rest ih =>
    rw [List.flatten_cons] at h
    have hRun : IsQuiet (((table.lookup run).map inlineMath).getD run) := by
      cases hLookup : table.lookup run with
      | none => exact (h.subset (List.subset_append_left _ _)).isQuiet
      | some command =>
        obtain ⟨front, back, rfl, _⟩ := List.lookup_eq_some_iff.mp hLookup
        have hEntry : (run, command) ∈ front ++ (run, command) :: back := by simp
        exact isQuiet_inlineMath (hDollars _ hEntry) (hBraces _ hEntry)
    exact hRun.append (ih (h.subset (List.subset_append_right _ _)))

theorem isQuiet_substitute_tiles (h : IsUnmarked t) (line : Text) :
    IsQuiet (substitute (lineTable line) (tiles t)) := by
  have hCommands : ∀ entry ∈ greek ++ proseWords ++ itemSigns, ¬ entry.2.any isBrace :=
    List.all_iff_forall_prop.mp (by decide)
  apply isQuiet_substitute (dollar_not_mem_lineTable line)
  · intro entry hEntry c hc
    rw [Bool.eq_false_iff]
    intro hBrace
    exact hCommands entry (lineTable_subset line hEntry) (List.any_eq_true.mpr ⟨c, hc, hBrace⟩)
  · rwa [tiles, List.flatten_splitBy]

end Quiet

/-! ## Braces around a text -/

section Around

variable {a t : Text}

theorem BraceState.escapeBracesFrom_of_braceless (h : ∀ c ∈ t, isBrace c = false) (s : BraceState) :
    escapeBracesFrom s.math s.depth s.last t = t ∧ (t.foldl BraceState.next s).depth = s.depth := by
  induction t generalizing s with
  | nil => exact ⟨rfl, rfl⟩
  | cons c t ih =>
    obtain ⟨hc, ht⟩ := List.forall_mem_cons.mp h
    rw [isBrace, Bool.or_eq_false_iff] at hc
    have hEscapes : s.escapes c = false := by simp [BraceState.escapes, hc]
    have hDepth := s.depth_next c
    simp only [BraceState.keeps, hc, Bool.false_and, Bool.false_eq_true, if_false] at hDepth
    obtain ⟨hRest, hEnd⟩ := ih ht (s.next c)
    rw [BraceState.escapeBracesFrom_cons, hRest, hEscapes, List.foldl_cons, hEnd]
    exact ⟨rfl, hDepth⟩

theorem escapeBraces_append_quiet (a : Text) (h : IsQuiet t) :
    escapeBraces (a ++ t) = escapeBraces a ++ t := by
  rw [escapeBraces_append, (BraceState.escapeBracesFrom_of_braceless h.braces _).1]

/-- A closing brace behind a text without braces is judged by what stands before that text. -/
theorem escapeBraces_append_closing (ha : a.count '$' % 2 = 0) (h : IsQuiet t) :
    escapeBraces (a ++ t ++ ['}']) = escapeBraces a ++ t ++
      if (BraceState.after a).depth = 0 then ['\\', '}'] else ['}'] := by
  have hMath : (BraceState.after (a ++ t)).math = false := by
    rw [BraceState.math_after, List.count_append, Nat.add_mod, ha, h.dollars]
    rfl
  have hDepth : (BraceState.after (a ++ t)).depth = (BraceState.after a).depth := by
    rw [BraceState.after, List.foldl_append]
    exact (BraceState.escapeBracesFrom_of_braceless h.braces _).2
  rw [escapeBraces_append, escapeBraces_append_quiet a h, BraceState.escapeBracesFrom_cons,
    BraceState.escapes, hMath, hDepth]
  simp [escapeBracesFrom]

variable (hLast : a.getLast? ≠ some '\\') (hKept : escapeBraces a = a)

include hLast hKept

theorem bareBraces_escapeBraces_quiet (h : IsQuiet t) :
    bareBraces (escapeBraces (a ++ t)) = bareBraces a := by
  have hNone : bareBraces t = [] := bareBracesBehind_eq_nil h.braces '\n'
  rw [escapeBraces_append_quiet a h, hKept, bareBraces_append hLast, hNone, List.append_nil]

theorem bareBraces_escapeBraces_closing (ha : a.count '$' % 2 = 0) (h : IsQuiet t) :
    bareBraces (escapeBraces (a ++ t ++ ['}'])) =
      bareBraces a ++ if (BraceState.after a).depth = 0 then [] else ['}'] := by
  have hQuiet := bareBraces_escapeBraces_quiet hLast hKept h
  rw [escapeBraces_append_quiet a h, hKept] at hQuiet
  rw [escapeBraces_append_closing ha h, hKept, bareBraces_append (getLast?_append_ne hLast h.last),
    hQuiet]
  split
  · rfl
  · rfl

end Around

/-! ## Lines of italic text -/

/-- The beginning of italic text. -/
def italicOpening : Text := "\\textit\x7b".toList

section Rows

variable {a t : Text}

theorem isQuiet_pass (h : IsUnmarked t) : IsQuiet (pass (lineTable t) (lineText t)) := by
  have hText := h.subset (lineText_subset t)
  rw [pass_of_not_mem (hText.not_mem (by decide))]
  exact isQuiet_substitute_tiles hText t

theorem exists_pass_opening (h : IsUnmarked t) :
    ∃ b, IsQuiet b ∧ pass (lineTable (italicOpening ++ t)) (lineText (italicOpening ++ t)) =
      italicOpening ++ b := by
  have hItem : isItem (italicOpening ++ t) = false :=
    isItem_append_cons (by decide) (by decide) "\\textit".toList t
  have hTrim : trim (italicOpening ++ t) = italicOpening ++ t.rdropWhile isSpace :=
    trim_append_cons (by decide) "\\textit".toList t
  have hEnd : IsUnmarked (t.rdropWhile isSpace) :=
    h.subset (List.rdropWhile_prefix isSpace _).subset
  have hDollar : '$' ∉ italicOpening ++ t.rdropWhile isSpace := by
    rw [List.mem_append, not_or]
    exact ⟨by decide, hEnd.not_mem (by decide)⟩
  have hApart : ∀ c ∈ italicOpening.getLast?, ∀ d ∈ (t.rdropWhile isSpace).head?,
      sameTile c d = false := by
    intro c hc d _
    obtain rfl : '{' = c := Option.some.inj hc
    rfl
  have hKept : substitute (greek ++ proseWords) (tiles italicOpening) = italicOpening := by
    decide +kernel
  refine ⟨_, isQuiet_substitute_tiles hEnd (italicOpening ++ t), ?_⟩
  rw [lineText, lineTable, hItem, if_neg Bool.false_ne_true, if_neg Bool.false_ne_true, hTrim,
    pass_of_not_mem hDollar, substitute_tiles_append hApart, hKept]

theorem exists_pass_closing (ha : '$' ∉ a) :
    ∃ b, IsQuiet b ∧ pass (lineTable (a ++ ['}'])) (lineText (a ++ ['}'])) =
      pass (lineTable a) (lineText a) ++ b ++ ['}'] := by
  obtain ⟨spaces, hSpaces, hText⟩ := exists_lineText_append (c := '}') (by decide) (by decide) a []
  have hTable : lineTable (a ++ ['}']) = lineTable a :=
    lineTable_append_cons (by decide) (by decide) a []
  have hFront : '$' ∉ lineText a := fun hMem => ha (lineText_subset a hMem)
  have hUnmarked := isUnmarked_of_isSpace hSpaces
  have hDollar : '$' ∉ lineText a ++ spaces ++ ['}'] := by
    simp [hFront, hUnmarked.not_mem (show '$' ∈ markup by decide)]
  have hBehind : ∀ c ∈ (lineText a ++ spaces).getLast?, ∀ d ∈ ['}'].head?,
      sameTile c d = false := by
    intro c _ d hd
    obtain rfl : '}' = d := Option.some.inj hd
    simp [sameTile, show isWord '}' = false from rfl]
  have hKept : substitute (lineTable a) (tiles ['}']) = ['}'] := by
    rw [lineTable]
    split
    · decide +kernel
    · decide +kernel
  refine ⟨_, isQuiet_substitute_tiles hUnmarked a, ?_⟩
  rw [hTable, hText, List.rdropWhile_nil, pass_of_not_mem hDollar, substitute_tiles_append hBehind,
    substitute_tiles_spaces hSpaces, hKept, pass_of_not_mem hFront]

theorem bareBraces_writtenLine (h : IsUnmarked t) : bareBraces (writtenLine t) = [] := by
  have hBraces := bareBraces_escapeBraces_quiet (a := []) (by decide) rfl (isQuiet_pass h)
  rwa [List.nil_append, ← writtenLine_eq] at hBraces

theorem bareBraces_opening (h : IsUnmarked t) :
    bareBraces (writtenLine (italicOpening ++ t)) = ['{'] := by
  obtain ⟨b, hb, hPass⟩ := exists_pass_opening h
  rw [writtenLine_eq, hPass, bareBraces_escapeBraces_quiet (by decide) (by decide) hb]
  rfl

/-- The closing brace has no partner in its line. -/
theorem bareBraces_closing (h : IsUnmarked t) : bareBraces (writtenLine (t ++ ['}'])) = [] := by
  obtain ⟨b, hb, hPass⟩ := exists_pass_closing (h.not_mem (by decide))
  have hBraces := bareBraces_escapeBraces_closing (a := []) (by decide) rfl rfl
    ((isQuiet_pass h).append hb)
  rwa [List.nil_append, ← hPass, ← writtenLine_eq] at hBraces

theorem bareBraces_both (h : IsUnmarked t) :
    bareBraces (writtenLine (italicOpening ++ t ++ ['}'])) = ['{', '}'] := by
  have hDollar : '$' ∉ italicOpening ++ t := by
    rw [List.mem_append, not_or]
    exact ⟨by decide, h.not_mem (by decide)⟩
  obtain ⟨b, hb, hOpened⟩ := exists_pass_opening h
  obtain ⟨c, hc, hPass⟩ := exists_pass_closing hDollar
  rw [writtenLine_eq, hPass, hOpened, List.append_assoc italicOpening b c,
    bareBraces_escapeBraces_closing (by decide) (by decide) (by decide) (hb.append hc)]
  rfl

end Rows

/-! ## Marker words -/

section Marker

variable {b t : Text}

theorem replaceEach_of_absent {table : List (Text × Text)} (h : ∀ entry ∈ table, ¬ entry.1 <:+: t) :
    replaceEach table t = t := by
  induction t with
  | nil => rw [replaceEach]
  | cons c t ih =>
    have hNone : table.find? (fun entry => entry.1.isPrefixOf (c :: t)) = none := by
      rw [List.find?_eq_none]
      intro entry hEntry hPrefix
      exact h entry hEntry (List.isPrefixOf_iff_prefix.mp hPrefix).isInfix
    have hTail : ∀ entry ∈ table, ¬ entry.1 <:+: t :=
      fun entry hEntry hInfix => h entry hEntry (hInfix.trans (List.suffix_cons c t).isInfix)
    rw [replaceEach, hNone]
    exact congrArg _ (ih hTail)

theorem wrapMarked_of_not_mem {mark : Char} (command : Text) (h : mark ∉ t) :
    wrapMarked mark command t = t := by
  induction t with
  | nil => rw [wrapMarked]
  | cons c t ih =>
    rw [List.mem_cons, not_or] at h
    rw [wrapMarked_cons_of_ne (Ne.symm h.1), ih h.2]

theorem outsideMath_eq_self {f : Text → Text} (h : ∀ piece, piece ⊆ t → f piece = piece) :
    outsideMath f t = t := by
  induction t using math_induction with
  | plain t ht =>
    rw [outsideMath_of_not_mem f ht]
    exact h t (List.Subset.refl t)
  | unclosed a inside ha hInside =>
    rw [outsideMath_unclosed ha hInside, h a (List.subset_append_left _ _)]
  | math a inside t ha hInside ih =>
    have hRest : t ⊆ a ++ '$' :: (inside ++ '$' :: t) := by
      intro c hc
      simp [hc]
    rw [outsideMath_math ha hInside, h a (List.subset_append_left _ _),
      ih fun piece hPiece => h piece fun c hc => hRest (hPiece hc)]

theorem italics_eq_self (hBackslash : '\\' ∉ t) (hAsterisk : '*' ∉ t) : italics t = t := by
  apply outsideMath_eq_self
  intro piece hPiece
  rw [wrapMarked_of_not_mem _ fun hMem => hBackslash (hPiece hMem),
    wrapMarked_of_not_mem _ fun hMem => hAsterisk (hPiece hMem)]

theorem mem_splitOn_between {word : Text} (hWord : '$' ∉ word) (front back : Text) :
    word ∈ (front ++ '$' :: (word ++ '$' :: back)).splitOn '$' := by
  rw [List.splitOn_append_cons_self, List.splitOn_append_cons_self_of_not_mem hWord]
  exact List.mem_append_right _ List.mem_cons_self

theorem mathMarkers_italic (hDollar : '$' ∉ b) (hStart : b ≠ "MATHSTART".toList)
    (hEnd : b ≠ "MATHEND".toList) :
    mathMarkers (italicStart ++ b ++ italicEnd) = italicStart ++ b ++ italicEnd := by
  have hText : italicStart ++ b ++ italicEnd =
      "$$ITALICSTART$".toList ++ '$' :: (b ++ '$' :: "$ITALICEND$$".toList) := rfl
  have hNone {word : Text} (hWord : '$' ∉ word)
      (hStart : word ∉ "$$ITALICSTART$".toList.splitOn '$') (hb : word ≠ b)
      (hEnd : word ∉ "$ITALICEND$$".toList.splitOn '$') :
      ¬ '$' :: '$' :: (word ++ ['$', '$']) <:+: italicStart ++ b ++ italicEnd := by
    rintro ⟨front, back, hFound⟩
    have hMem := mem_splitOn_between hWord (front ++ ['$']) ('$' :: back)
    have hSame : front ++ ['$'] ++ '$' :: (word ++ '$' :: '$' :: back) =
        "$$ITALICSTART$".toList ++ '$' :: (b ++ '$' :: "$ITALICEND$$".toList) := by
      rw [← hText, ← hFound]
      simp
    rw [hSame, List.splitOn_append_cons_self, List.splitOn_append_cons_self_of_not_mem hDollar,
      List.mem_append, List.mem_cons] at hMem
    rcases hMem with hMem | hMem | hMem
    · exact hStart hMem
    · exact hb hMem
    · exact hEnd hMem
  apply replaceEach_of_absent
  rw [List.forall_mem_cons, List.forall_mem_singleton]
  exact ⟨hNone (by decide) (by decide) (Ne.symm hStart) (by decide),
    hNone (by decide) (by decide) (Ne.symm hEnd) (by decide)⟩

theorem italicMarkers_italic (hb : '$' ∉ b) :
    italicMarkers (italicStart ++ b ++ italicEnd) = italicOpening ++ b ++ ['}'] := by
  have hStart : splitAtFirst? italicStart (italicStart ++ b ++ italicEnd) =
      some ([], b ++ italicEnd) := rfl
  have hEnd : splitAtFirst? italicEnd (b ++ italicEnd) = some (b, []) := by
    have hSelf : splitAtFirst? italicEnd italicEnd = some ([], []) := by decide
    rw [splitAtFirst?_skip (by decide) hb, hSelf]
    exact congrArg (fun front => some (front, [])) (List.append_nil b)
  rw [italicMarkers]
  split
  · rename_i hNone
    cases hStart.symm.trans hNone
  · rename_i before tail hSome
    obtain ⟨rfl, rfl⟩ := Prod.mk.inj (Option.some.inj (hStart.symm.trans hSome))
    split
    · rename_i hNone
      cases hEnd.symm.trans hNone
    · rename_i body rest hSome
      obtain ⟨rfl, rfl⟩ := Prod.mk.inj (Option.some.inj (hEnd.symm.trans hSome))
      rw [italicMarkers_of_none rfl, List.append_nil]
      rfl

/-- `MATHSTART` and `MATHEND` would be marker words with the dollar signs around them. -/
theorem paragraph_italic (h : IsUnmarked b) (hStart : b ≠ "MATHSTART".toList)
    (hEnd : b ≠ "MATHEND".toList) :
    paragraph (italicStart ++ b ++ italicEnd) = list (lines (italicOpening ++ b ++ ['}'])) := by
  have hDollar : '$' ∉ b := h.not_mem (by decide)
  have hItalics : italics (italicStart ++ b ++ italicEnd) = italicStart ++ b ++ italicEnd := by
    have hNone {c : Char} (hc : c ∈ markup) (hMarkers : c ∉ italicStart ++ italicEnd) :
        c ∉ italicStart ++ b ++ italicEnd := by
      have hText := h.not_mem hc
      simp_all
    exact italics_eq_self (hNone (by decide) (by decide)) (hNone (by decide) (by decide))
  rw [paragraph_eq_list, mathMarkers_italic hDollar hStart hEnd, hItalics,
    italicMarkers_italic hDollar]

end Marker

/-! ## Closed and open groups -/

section Group

variable {b : Text} (h : IsUnmarked b)

include h

theorem lineBraces_italic_line (hLine : '\n' ∉ b) :
    lineBraces (lines (italicOpening ++ b ++ ['}'])) = ['{', '}'] := by
  have hRow : '\n' ∉ italicOpening ++ b ++ ['}'] := by
    have hOpening : '\n' ∉ italicOpening := by decide
    simp [hOpening, hLine]
  rw [lines_of_not_mem hRow, lineBraces_cons, bareBraces_both h]
  rfl

theorem lineBraces_italic_lines (hLines : '\n' ∈ b) :
    lineBraces (lines (italicOpening ++ b ++ ['}'])) = ['{'] := by
  obtain ⟨first, rest, rfl, hFirst⟩ := List.eq_append_cons_of_mem hLines
  obtain ⟨above, last, hAbove, hMore⟩ := exists_lines_append rest
  have hUnmarked : ∀ line ∈ above ++ [last], IsUnmarked line := by
    intro line hLine
    apply h.subset
    intro c hc
    exact List.mem_append_right _ (List.mem_cons_of_mem _ ((of_mem_lines (hAbove ▸ hLine)).2 hc))
  obtain ⟨hMiddle, hLast⟩ := List.forall_mem_append.mp hUnmarked
  have hLast : IsUnmarked last := hLast last (List.mem_singleton_self last)
  have hNone : lineBraces above = [] :=
    List.flatMap_eq_nil_iff.mpr fun line hLine => bareBraces_writtenLine (hMiddle line hLine)
  have hText : italicOpening ++ (first ++ '\n' :: rest) ++ ['}'] =
      (italicOpening ++ first) ++ '\n' :: (rest ++ ['}']) := by simp
  have hOpening : '\n' ∉ italicOpening ++ first := by
    rw [List.mem_append, not_or]
    exact ⟨by decide, hFirst⟩
  have hClosing : '\n' ∉ last ++ ['}'] := by
    simp [(of_lines_eq_concat hAbove).1]
  rw [hText, lines_append_newline, lines_of_not_mem hOpening, hMore, lines_of_not_mem hClosing,
    List.singleton_append, lineBraces_cons, lineBraces_append, lineBraces_cons,
    bareBraces_opening (h.subset (List.subset_append_left _ _)), hNone, bareBraces_closing hLast]
  rfl

end Group

/-- Italic text between marker words is a closed group exactly if it is in one line. Otherwise the
brace that ends it gets a backslash and the group is never closed. -/
theorem italic_group_closed_iff {b : Text} (h : IsUnmarked b) :
    (BracesBalanced (bareBraces (paragraph (italicStart ++ b ++ italicEnd))) ↔ '\n' ∉ b) ∧
      ('\n' ∈ b → braceLevel (bareBraces (paragraph (italicStart ++ b ++ italicEnd))) = 1) := by
  -- around these two words the marker words are read as others
  by_cases hStart : b = "MATHSTART".toList
  · rw [hStart]
    decide +kernel
  by_cases hEnd : b = "MATHEND".toList
  · rw [hEnd]
    decide +kernel
  rw [paragraph_italic h hStart hEnd]
  have hRises := rises_bareBraces_list (lines (italicOpening ++ b ++ ['}']))
  by_cases hLines : '\n' ∈ b
  · rw [lineBraces_italic_lines h hLines] at hRises
    have hLevel := hRises.level
    refine ⟨iff_of_false (fun hBalanced => ?_) (not_not_intro hLines), fun _ => hLevel⟩
    rw [braceLevel, hBalanced.2, Int.sub_self] at hLevel
    cases hLevel
  · rw [lineBraces_italic_line h hLines] at hRises
    exact ⟨iff_of_true (hRises.balanced (by decide)) hLines, fun hNewline => absurd hNewline hLines⟩

/-- Two words for symbols in one line, and the second one as an item. -/
theorem italic_group_closed_iff_words :
    BracesBalanced (bareBraces (paragraph (italicStart ++ "alpha - eta".toList ++ italicEnd))) ∧
      braceLevel (bareBraces (paragraph (italicStart ++ "alpha\n- eta".toList ++ italicEnd))) = 1 :=
  ⟨(italic_group_closed_iff (b := "alpha - eta".toList) (by decide)).1.mpr (by decide),
    (italic_group_closed_iff (b := "alpha\n- eta".toList) (by decide)).2 (by decide)⟩

/-- A group over two lines is left open. -/
theorem italic_group_open_over_lines :
    IsUnmarked "a\nb".toList ∧
      paragraph (italicStart ++ "a\nb".toList ++ italicEnd) =
        "\\textit\x7ba\\newline\nb\\\x7d\n\n".toList ∧
      ¬ BracesBalanced (bareBraces (paragraph (italicStart ++ "a\nb".toList ++ italicEnd))) := by
  decide +kernel

end ProseMath.Latex
