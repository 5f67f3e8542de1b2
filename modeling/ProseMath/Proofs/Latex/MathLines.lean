import Mathlib.Tactic.Common
import ProseMath.Proofs.Latex.BraceEscape
import ProseMath.Proofs.Latex.MathSpan
import ProseMath.Proofs.Latex.WrittenLine

/-!
# Mathematics over several lines

Emphasis is looked for in a whole paragraph, but symbols and braces in each line anew, as if every
line began outside mathematics. So mathematics in one line are kept, and of mathematics that go over
several lines the first one is. The others are written like lines of prose.

* `writtenLine_keeps_math`: a line and the mathematics that begin in it.
* `writtenLine_prefix_dollar`: a line of prose in front of a dollar sign.
* `writtenLine_eq_trim_iff`: lines that are written as they stand.
* `paragraph_mathSpan`, `math_span_line_by_line`: mathematics between marker words.
-/

namespace ProseMath.Latex

open Text

/-! ## Pieces of a text -/

section Piece

variable {piece t : Text}

theorem Inserts.mem {p : Text → Prop} {a b : List Text} (h : Inserts p a b) (hPiece : piece ∈ a) :
    piece ∈ b := by
  induction h with
  | nil => exact hPiece
  | keep _ _ ih =>
    rcases List.mem_cons.mp hPiece with rfl | hPiece
    · exact List.mem_cons_self
    · exact List.mem_cons_of_mem _ (ih hPiece)
  | insert _ _ ih => exact List.mem_cons_of_mem _ (ih hPiece)

/-- A piece inside mathematics stands behind a dollar sign, and in front of one if all mathematics
are closed. -/
theorem exists_of_mem_mathPieces (h : piece ∈ mathPieces t) :
    ∃ front back, t = front ++ '$' :: (piece ++ back) ∧
      (t.count '$' % 2 = 0 → ∃ rest, back = '$' :: rest) := by
  induction t using math_induction with
  | plain t ht =>
    rw [mathPieces_of_not_mem ht] at h
    cases h
  | unclosed a inside ha hInside =>
    rw [mathPieces_unclosed ha hInside, List.mem_singleton] at h
    refine ⟨a, [], by rw [h, List.append_nil], fun hEven => ?_⟩
    rw [count_unclosed ha hInside] at hEven
    cases hEven
  | math a inside t ha hInside ih =>
    rw [mathPieces_math ha hInside] at h
    rcases List.mem_cons.mp h with rfl | h
    · exact ⟨a, '$' :: t, rfl, fun _ => ⟨t, rfl⟩⟩
    · obtain ⟨front, back, hText, hClosed⟩ := ih h
      refine ⟨a ++ '$' :: (inside ++ '$' :: front), back, by simp [hText], fun hEven => ?_⟩
      rw [count_math ha hInside, Nat.add_mod_right] at hEven
      exact hClosed hEven

end Piece

/-! ## Lines with mathematics -/

section Math

variable {line piece : Text}

theorem addsMath_writtenLine (line : Text) :
    AddsMath ((lineTable line).map Prod.snd) (lineText line) (writtenLine line) := by
  have hPass := addsMath_pass (dollar_not_mem_lineTable line) (lineText line)
  have hBraces := sameMath_escapeBracesFrom 0 none (pass (lineTable line) (lineText line))
  rw [writtenLine_eq]
  exact ⟨hBraces.count ▸ hPass.parity, hBraces.pieces ▸ hPass.pieces⟩

theorem writtenLine_keeps_math (h : piece ∈ mathPieces (lineText line)) :
    piece <:+: writtenLine line := by
  have hPiece := (addsMath_writtenLine line).pieces.mem h
  obtain ⟨front, back, hText, _⟩ := exists_of_mem_mathPieces hPiece
  exact ⟨front ++ ['$'], back, by simp [hText]⟩

theorem writtenLine_keeps_inlineMath (hEven : (lineText line).count '$' % 2 = 0)
    (h : piece ∈ mathPieces (lineText line)) : inlineMath piece <:+: writtenLine line := by
  have hMath := addsMath_writtenLine line
  obtain ⟨front, back, hText, hClosed⟩ := exists_of_mem_mathPieces (hMath.pieces.mem h)
  obtain ⟨rest, rfl⟩ := hClosed (hMath.parity.trans hEven)
  exact ⟨front, rest, by simp [hText, inlineMath]⟩

variable {a inside : Text} (ha : '$' ∉ a) (hInside : '$' ∉ inside)

include ha

theorem exists_lineText_dollar (t : Text) :
    ∃ b, '$' ∉ b ∧ lineText (a ++ '$' :: t) = b ++ '$' :: t.rdropWhile isSpace := by
  obtain ⟨spaces, hSpaces, hText⟩ :=
    exists_lineText_append (c := '$') (by decide) (by decide) a t
  refine ⟨_, ?_, hText⟩
  rw [List.mem_append, not_or]
  exact ⟨fun hMem => ha (lineText_subset a hMem), fun hMem => absurd (hSpaces _ hMem) (by decide)⟩

include hInside

theorem trim_infix_writtenLine : trim inside <:+: writtenLine (a ++ '$' :: inside) := by
  obtain ⟨b, hb, hText⟩ := exists_lineText_dollar ha inside
  have hPiece : '$' ∉ inside.rdropWhile isSpace :=
    fun hMem => hInside ((List.rdropWhile_prefix isSpace _).subset hMem)
  apply (trim_infix_rdropWhile inside).trans
  apply writtenLine_keeps_math
  rw [hText, mathPieces_unclosed hb hPiece]
  exact List.mem_singleton_self _

theorem inlineMath_infix_writtenLine {t : Text} (ht : '$' ∉ t) :
    inlineMath inside <:+: writtenLine (a ++ '$' :: (inside ++ '$' :: t)) := by
  obtain ⟨b, hb, hText⟩ := exists_lineText_dollar ha (inside ++ '$' :: t)
  have hEnd : '$' ∉ t.rdropWhile isSpace :=
    fun hMem => ht ((List.rdropWhile_prefix isSpace _).subset hMem)
  rw [rdropWhile_append_cons (by decide)] at hText
  apply writtenLine_keeps_inlineMath
  · rw [hText, count_math hb hInside, List.count_eq_zero.mpr hEnd]
  · rw [hText, mathPieces_math hb hInside]
    exact List.mem_cons_self

end Math

/-! ## Lines in front of a dollar sign -/

section Front

variable {a : Text} (ha : '$' ∉ a)

include ha

theorem prefix_outsideMath (f : Text → Text) (t : Text) :
    f a <+: outsideMath f (a ++ '$' :: t) := by
  by_cases hDollar : '$' ∈ t
  · obtain ⟨inside, rest, rfl, hInside⟩ := List.eq_append_cons_of_mem hDollar
    rw [outsideMath_math ha hInside]
    exact List.prefix_append _ _
  · rw [outsideMath_unclosed ha hDollar]
    exact List.prefix_append _ _

/-- The dollar sign that ends mathematics begins some as far as its line is concerned, so what
stands before it in the line is written as prose. -/
theorem writtenLine_prefix_dollar (t : Text) : writtenLine a <+: writtenLine (a ++ '$' :: t) := by
  obtain ⟨spaces, hSpaces, hText⟩ := exists_lineText_append (c := '$') (by decide) (by decide) a t
  have hFront : '$' ∉ lineText a := fun hMem => ha (lineText_subset a hMem)
  have hBoth : '$' ∉ lineText a ++ spaces := by
    rw [List.mem_append, not_or]
    exact ⟨hFront, fun hMem => absurd (hSpaces _ hMem) (by decide)⟩
  have hPass : pass (lineTable a) (lineText a) <+:
      pass (lineTable a) (lineText a ++ spaces ++ '$' :: t.rdropWhile isSpace) := by
    rw [pass_of_not_mem hFront]
    refine List.IsPrefix.trans ?_ (prefix_outsideMath hBoth _ _)
    rw [substitute_tiles_spaces hSpaces]
    exact List.prefix_append _ _
  obtain ⟨rest, hRest⟩ := hPass
  rw [writtenLine_eq, writtenLine_eq, lineTable_append_cons (by decide) (by decide), hText, ← hRest,
    escapeBraces_append]
  exact List.prefix_append _ _

end Front

/-! ## Lines that are written as they stand -/

/-- A line of text in which no word stands for a symbol, every opening brace stands behind a letter
and every closing one has a partner. -/
structure IsUntouched (t : Text) : Prop where
  text : isItem t = false
  words : ∀ tile ∈ tiles t, (greek ++ proseWords).lookup tile = none
  opening : ∀ index, t[index]? = some '{' → endsWithLetter (t.take index)
  closing : ∀ beginning, beginning <+: t → beginning.count '}' ≤ beginning.count '{'

section Untouched

variable {table : WordTable} {t line : Text}

theorem pass_eq_self (hDollar : '$' ∉ t) (h : ∀ tile ∈ tiles t, table.lookup tile = none) :
    pass table t = t := by
  have hTiles : ∀ tile ∈ tiles t, ((table.lookup tile).map inlineMath).getD tile = tile :=
    fun tile hTile => by rw [h tile hTile]; rfl
  rw [pass_of_not_mem hDollar, substitute, List.flatMap_congr hTiles, List.flatMap_id', tiles,
    List.flatten_splitBy]

/-- A symbol would bring dollar signs. -/
theorem lookup_eq_none_of_pass (hDollar : '$' ∉ t) (h : '$' ∉ pass table t) :
    ∀ tile ∈ tiles t, table.lookup tile = none := by
  intro tile hTile
  rw [pass_of_not_mem hDollar] at h
  cases hLookup : table.lookup tile with
  | none => rfl
  | some command =>
    refine absurd (List.mem_flatMap.mpr ⟨tile, hTile, ?_⟩) h
    simp [hLookup, inlineMath]

theorem writtenLine_eq_trim_iff (hDollar : '$' ∉ line) :
    writtenLine line = trim line ↔ IsUntouched (trim line) := by
  have hText : '$' ∉ lineText line := fun hMem => hDollar (lineText_subset line hMem)
  have hTrim : '$' ∉ trim line := fun hMem => hDollar (trim_subset line hMem)
  rw [writtenLine_eq]
  constructor
  · intro h
    have hWords : ∀ tile ∈ tiles (lineText line), (lineTable line).lookup tile = none := by
      apply lookup_eq_none_of_pass hText
      rw [← List.count_eq_zero, ← count_escapeBraces (by decide), h]
      exact List.count_eq_zero.mpr hTrim
    rw [pass_eq_self hText hWords] at h
    have hItem : isItem line = false := by
      -- an item has lost its hyphen
      rw [Bool.eq_false_iff]
      intro hItem
      have hHyphens : (lineText line).count '-' = (trim line).count '-' := by
        rw [← count_escapeBraces (by decide), h]
      rw [lineText, if_pos hItem] at hHyphens
      rw [isItem, decide_eq_true_iff] at hItem
      obtain ⟨rest, hRest⟩ := List.head?_eq_some_iff.mp hItem
      have hFewer := (trim_isInfix rest).sublist.count_le '-'
      rw [hRest, List.tail_cons, List.count_cons_self] at hHyphens
      omega
    rw [lineText, lineTable, hItem, if_neg Bool.false_ne_true, if_neg Bool.false_ne_true] at hWords
    rw [lineText, hItem, if_neg Bool.false_ne_true] at h
    obtain ⟨hOpening, hClosing⟩ := (escapeBraces_eq_self_iff hTrim).mp h
    exact ⟨(isItem_trim line).trans hItem, hWords, hOpening, hClosing⟩
  · rintro ⟨hItem, hWords, hOpening, hClosing⟩
    rw [isItem_trim] at hItem
    rw [lineText, lineTable, hItem, if_neg Bool.false_ne_true, if_neg Bool.false_ne_true,
      pass_eq_self hTrim hWords]
    exact (escapeBraces_eq_self_iff hTrim).mpr ⟨hOpening, hClosing⟩

end Untouched

/-! ## Mathematics between marker words -/

/-- Mathematics between marker words, and the text around them. -/
def mathSpan (pre m post : Text) : Text :=
  pre ++ ("$$MATHSTART$$".toList ++ (m ++ ("$$MATHEND$$".toList ++ post)))

section Span

variable {pre m post : Text} (hPre : '$' ∉ pre) (hm : '$' ∉ m) (hPost : '$' ∉ post)

include hPre hm hPost

theorem mathMarkers_mathSpan :
    mathMarkers (mathSpan pre m post) = pre ++ '$' :: (m ++ '$' :: post) := by
  have hTable : ∀ entry ∈ [("$$MATHSTART$$".toList, ['$']), ("$$MATHEND$$".toList, ['$'])],
      entry.1.head? = some '$' := List.all_iff_forall_prop.mp (by decide)
  have hStart (t : Text) : mathMarkers ("$$MATHSTART$$".toList ++ t) = ['$'] ++ mathMarkers t :=
    replaceEach_entry (by decide) rfl
  have hEnd (t : Text) : mathMarkers ("$$MATHEND$$".toList ++ t) = ['$'] ++ mathMarkers t :=
    replaceEach_entry (by decide) rfl
  simp only [mathMarkers] at hStart hEnd ⊢
  rw [mathSpan, replaceEach_skip hTable hPre, hStart, replaceEach_skip hTable hm, hEnd,
    replaceEach_of_not_mem hTable hPost]
  rfl

/-- Emphasis is put in around the mathematics, and the lines are those of the whole text. -/
theorem paragraph_mathSpan :
    paragraph (mathSpan pre m post) =
      list (lines (wrapBoth pre ++ '$' :: (m ++ '$' :: wrapBoth post))) := by
  have hItalics : italics (pre ++ '$' :: (m ++ '$' :: post)) =
      wrapBoth pre ++ '$' :: (m ++ '$' :: wrapBoth post) := by
    rw [italics, outsideMath_math hPre hm, outsideMath_of_not_mem _ hPost]
    rfl
  have hMarkers : splitAtFirst? italicStart
      (wrapBoth pre ++ '$' :: (m ++ '$' :: wrapBoth post)) = none := by
    -- a marker word has more dollar signs than are left
    rw [Option.eq_none_iff_forall_ne_some]
    intro parts hSome
    have hCount := congrArg (List.count '$') (splitAtFirst?_append hSome)
    have hStart : italicStart.count '$' = 4 := by decide
    rw [List.count_append, List.count_append, hStart, count_math (dollar_not_mem_wrapBoth hPre) hm,
      List.count_eq_zero.mpr (dollar_not_mem_wrapBoth hPost)] at hCount
    omega
  rw [paragraph_eq_list, mathMarkers_mathSpan hPre hm hPost, hItalics,
    italicMarkers_of_none hMarkers]

end Span

section Lines

variable {a m b : Text}

/-- Mathematics in one line are kept with their dollar signs. -/
theorem inlineMath_infix_list (ha : '$' ∉ a) (hm : '$' ∉ m) (hb : '$' ∉ b) (hLine : '\n' ∉ m) :
    inlineMath m <:+: list (lines (a ++ '$' :: (m ++ '$' :: b))) := by
  obtain ⟨above, last, hAbove, hMore⟩ := exists_lines_append a
  obtain ⟨hLast, hSubset⟩ := of_lines_eq_concat hAbove
  obtain ⟨first, hFirst, hMem⟩ := exists_line_append b
  have hWhole := hMem (last ++ '$' :: (m ++ ['$'])) (by simp [hLast, hLine])
  have hSpan := inlineMath_infix_writtenLine (fun hc => ha (hSubset hc)) hm
    fun hc => hb (hFirst hc)
  apply hSpan.trans
  apply writtenLine_infix_list
  rw [hMore]
  apply List.mem_append_right
  simpa using hWhole

/-- Where mathematics go on in another line, the rest of their first line is kept. -/
theorem trim_infix_list (ha : '$' ∉ a) (hm : '$' ∉ m) (hLine : '\n' ∉ m) (b : Text) :
    trim m <:+: list (lines (a ++ '$' :: (m ++ '\n' :: b))) := by
  obtain ⟨above, last, hAbove, hMore⟩ := exists_lines_append a
  obtain ⟨hLast, hSubset⟩ := of_lines_eq_concat hAbove
  apply (trim_infix_writtenLine (fun hc => ha (hSubset hc)) hm).trans
  apply writtenLine_infix_list
  rw [← List.cons_append, ← List.append_assoc, lines_append_newline, hMore,
    lines_of_not_mem (t := last ++ '$' :: m) (by simp [hLast, hLine])]
  simp

/-- The lines between a line feed and the next dollar sign are written like lines of prose. -/
theorem writtenLine_infix_list_of_mem {line : Text} (hm : '$' ∉ m) (h : line ∈ lines m)
    (front back : Text) :
    writtenLine line <:+: list (lines (front ++ '\n' :: (m ++ '$' :: back))) := by
  obtain ⟨above, last, hAbove, hMore⟩ := exists_lines_append m
  obtain ⟨hLast, hSubset⟩ := of_lines_eq_concat hAbove
  rw [lines_append_newline, hMore]
  rw [hAbove] at h
  rcases List.mem_append.mp h with h | h
  · exact writtenLine_infix_list (List.mem_append_right _ (List.mem_append_left _ h))
  · obtain ⟨first, _, hMem⟩ := exists_line_append back
    have hWhole := hMem (last ++ ['$']) (by simp [hLast])
    rw [List.append_assoc, List.append_assoc, List.singleton_append,
      List.singleton_append] at hWhole
    rw [List.mem_singleton.mp h]
    apply (writtenLine_prefix_dollar (fun hc => hm (hSubset hc)) first).isInfix.trans
    exact writtenLine_infix_list (List.mem_append_right _ (List.mem_append_right _ hWhole))

end Lines

/-- Mathematics between marker words are kept if they are in one line. Otherwise their first line
is, and each of the others is written like a line of prose, so that it stands there as it was
exactly if prose would: it is no item, has no word for a symbol, and all its braces enclose
arguments. -/
theorem math_span_line_by_line {pre m post : Text} (hPre : '$' ∉ pre) (hm : '$' ∉ m)
    (hPost : '$' ∉ post) :
    ('\n' ∉ m → inlineMath m <:+: paragraph (mathSpan pre m post)) ∧
      (∀ line ∈ (lines m).head?, trim line <:+: paragraph (mathSpan pre m post)) ∧
      ∀ line ∈ (lines m).tail, writtenLine line <:+: paragraph (mathSpan pre m post) ∧
        (writtenLine line = trim line ↔ IsUntouched (trim line)) := by
  rw [paragraph_mathSpan hPre hm hPost]
  have hSingle :=
    inlineMath_infix_list (dollar_not_mem_wrapBoth hPre) hm (dollar_not_mem_wrapBoth hPost)
  refine ⟨hSingle, ?_⟩
  by_cases hLines : '\n' ∈ m
  · obtain ⟨first, rest, rfl, hFirst⟩ := List.eq_append_cons_of_mem hLines
    rw [List.mem_append, List.mem_cons, not_or, not_or] at hm
    rw [lines_append_newline, lines_of_not_mem hFirst, List.append_assoc, List.cons_append]
    refine ⟨fun line hLine => ?_, fun line hLine => ⟨?_, ?_⟩⟩
    · obtain rfl : first = line := Option.some.inj hLine
      exact trim_infix_list (dollar_not_mem_wrapBoth hPre) hm.1 hFirst _
    · rw [← List.cons_append, ← List.append_assoc]
      exact writtenLine_infix_list_of_mem hm.2.2 hLine _ _
    · exact writtenLine_eq_trim_iff fun hc => hm.2.2 ((of_mem_lines hLine).2 hc)
  · rw [lines_of_not_mem hLines]
    refine ⟨fun line hLine => ?_, fun line hLine => absurd hLine List.not_mem_nil⟩
    obtain rfl : m = line := Option.some.inj hLine
    have hInside : m <:+: inlineMath m := ⟨['$'], ['$'], rfl⟩
    exact ((trim_isInfix m).trans hInside).trans (hSingle hLines)

/-- The second line has no brace and no word for a symbol. -/
theorem math_span_line_by_line_kept :
    "\x7bx\x7d alpha".toList <:+:
        paragraph (mathSpan "- sei ".toList "\x7bx\x7d alpha\n *b* ".toList " gilt".toList) ∧
      "*b*".toList <:+:
        paragraph (mathSpan "- sei ".toList "\x7bx\x7d alpha\n *b* ".toList " gilt".toList) := by
  obtain ⟨_, hFirst, hOthers⟩ :=
    @math_span_line_by_line "- sei ".toList "\x7bx\x7d alpha\n *b* ".toList " gilt".toList
      (by decide) (by decide) (by decide)
  refine ⟨hFirst "\x7bx\x7d alpha".toList (by decide), ?_⟩
  have hLine := (hOthers " *b* ".toList (by decide)).1
  have hWritten : writtenLine " *b* ".toList = "*b*".toList := by decide +kernel
  rwa [hWritten] at hLine

/-- The second line of mathematics is no longer there, because its braces got backslashes. -/
theorem math_span_loses_second_line :
    '$' ∉ "a\n\x7bb\x7d".toList ∧ "\x7bb\x7d".toList ∈ (lines "a\n\x7bb\x7d".toList).tail ∧
      paragraph (mathSpan [] "a\n\x7bb\x7d".toList []) =
        "$a\\newline\n\\\x7bb\\\x7d$\n\n".toList ∧
      ¬ "\x7bb\x7d".toList <:+: paragraph (mathSpan [] "a\n\x7bb\x7d".toList []) := by
  decide +kernel

end ProseMath.Latex
