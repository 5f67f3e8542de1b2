import Mathlib.Data.List.Infix
import Mathlib.Tactic.Common
import ProseMath.Proofs.Latex.ListRun
import ProseMath.Proofs.Latex.Substitution

/-!
# What is written of a line

However the lines of a paragraph are laid out, each of them is dressed by itself: it is trimmed, an
item loses its hyphen, symbols are put in and braces escaped. The results stand in the order of the
lines, and only pieces of the layout stand between them (`LaidOut`).

* `writtenLine_eq`: symbols are put in by one pass, whatever the line is.
* `laidOut_list`: lists and paragraphs.
* `writtenLine_infix_list`: every line is there.
* `exists_lineText_append`: a line that goes on behind a character.
-/

namespace ProseMath.Latex

open Text

/-- What is written of a line, an item or text. -/
def writtenLine (line : Text) : Text :=
  if isItem line then escapeBraces (itemSymbols (textSymbols (trim (trim line).tail)))
  else proseLine (trim line)

/-- The text of a line, which is trimmed and has no hyphen in front if it is an item. -/
def lineText (line : Text) : Text := if isItem line then trim (trim line).tail else trim line

/-- What is replaced in a line. -/
def lineTable (line : Text) : WordTable :=
  if isItem line then greek ++ proseWords ++ itemSigns else greek ++ proseWords

/-- The pieces that are put around lines. -/
def layoutPieces : List Text := [listBegin, listEnd, "  \\item ".toList, ['\n']]

/-- What is written of some lines, each with its end, and pieces of the layout between them. -/
inductive LaidOut : List Text → Text → Prop
  | nil : LaidOut [] []
  | line (line : Text) {ending t : Text} {rest : List Text}
    (hEnding : ending = ['\n'] ∨ ending = "\\newline\n".toList) (hRest : LaidOut rest t) :
    LaidOut (line :: rest) (writtenLine line ++ (ending ++ t))
  | piece {piece t : Text} {lines : List Text} (hPiece : piece ∈ layoutPieces)
    (hRest : LaidOut lines t) : LaidOut lines (piece ++ t)

/-! ## Lines -/

section Line

variable {line : Text}

theorem lineTable_subset (line : Text) : lineTable line ⊆ greek ++ proseWords ++ itemSigns := by
  intro entry hEntry
  rw [lineTable] at hEntry
  split at hEntry
  · exact hEntry
  · exact List.mem_append_left _ hEntry

theorem dollar_not_mem_lineTable (line : Text) : ∀ entry ∈ lineTable line, '$' ∉ entry.2 :=
  fun _ hEntry => dollar_not_mem_commands (lineTable_subset line hEntry)

theorem writtenLine_eq (line : Text) :
    writtenLine line = escapeBraces (pass (lineTable line) (lineText line)) := by
  have hSymbols : ∀ entry ∈ greek ++ proseWords, '$' ∉ entry.2 :=
    fun entry hEntry => dollar_not_mem_commands (List.mem_append_left _ hEntry)
  rw [writtenLine, lineTable, lineText]
  split
  · rw [textSymbols_eq_pass, itemSymbols_eq_pass, pass_pass hSymbols]
  · rw [proseLine, textSymbols_eq_pass]

theorem lineText_subset (line : Text) : lineText line ⊆ line := by
  intro c hc
  rw [lineText] at hc
  split at hc
  · exact trim_subset line (List.mem_of_mem_tail (trim_subset _ hc))
  · exact trim_subset line hc

theorem isItem_trim (line : Text) : isItem (trim line) = isItem line := by
  rw [isItem, isItem, trim_trim]

theorem writtenLine_trim (line : Text) : writtenLine (trim line) = writtenLine line := by
  rw [writtenLine, writtenLine, isItem_trim, trim_trim]

theorem writtenLine_of_blank (h : trim line = []) : writtenLine line = [] := by
  have hText : isItem line = false := by simp [isItem, h]
  rw [writtenLine_eq, lineText, hText, if_neg Bool.false_ne_true, h, pass,
    outsideMath_of_not_mem _ List.not_mem_nil]
  rfl

end Line

/-! ## Passes over parts of a text -/

section Parts

variable {a b : Text} {table : WordTable}

theorem sameTile_of_isSpace {c : Char} (h : isSpace c) (before : Char) :
    sameTile before c = false := by
  rw [Bool.eq_false_iff]
  intro hTile
  rcases sameTile_iff.mp hTile with ⟨_, hWord⟩ | ⟨_, rfl⟩
  · have hName : Token.isNameChar c := by
      simp only [isWord, Bool.or_eq_true, beq_iff_eq] at hWord
      rcases hWord with (hLetter | hDigit) | rfl
      · simp [Token.isNameChar, Token.isNameStart, hLetter]
      · simp [Token.isNameChar, hDigit]
      · rfl
    cases h.symm.trans (Token.not_isSpace_of_isNameChar hName)
  · cases h

theorem substitute_tiles_append
    (hApart : ∀ c ∈ a.getLast?, ∀ d ∈ b.head?, sameTile c d = false) :
    substitute table (tiles (a ++ b)) =
      substitute table (tiles a) ++ substitute table (tiles b) := by
  rw [tiles, List.splitBy_append hApart, substitute_append, tiles, tiles]

theorem substitute_tiles_spaces (hb : ∀ c ∈ b, isSpace c) :
    substitute table (tiles (a ++ b)) = substitute table (tiles a) ++ substitute table (tiles b) :=
  substitute_tiles_append fun c _ d hd => sameTile_of_isSpace (hb d (List.mem_of_mem_head? hd)) c

theorem pass_of_not_mem (h : '$' ∉ a) : pass table a = substitute table (tiles a) :=
  outsideMath_of_not_mem _ h

end Parts

/-! ## Lines that go on -/

section Append

variable {c : Char} (hc : isSpace c = false) (hHyphen : c ≠ '-')

include hc hHyphen

theorem isItem_append_cons (a b : Text) : isItem (a ++ c :: b) = isItem a := by
  rw [isItem, isItem, trim_append_cons hc]
  by_cases hBlank : trim a = []
  · have hFront : a.dropWhile isSpace = [] :=
      List.dropWhile_eq_nil_iff.mpr (trim_eq_nil_iff.mp hBlank)
    simp [hFront, hBlank, hHyphen]
  · obtain ⟨spaces, _, hFront⟩ := exists_dropWhile_eq a
    rw [hFront, List.append_assoc, List.head?_append_of_ne_nil _ hBlank]

theorem lineTable_append_cons (a b : Text) : lineTable (a ++ c :: b) = lineTable a := by
  rw [lineTable, isItem_append_cons hc hHyphen, lineTable]

theorem exists_lineText_append (a b : Text) :
    ∃ spaces, (∀ d ∈ spaces, isSpace d) ∧
      lineText (a ++ c :: b) = lineText a ++ spaces ++ c :: b.rdropWhile isSpace := by
  obtain ⟨spaces, hSpaces, hFront⟩ := exists_dropWhile_eq a
  rw [lineText, lineText, isItem_append_cons hc hHyphen, trim_append_cons hc, hFront]
  split
  · rename_i hItem
    rw [isItem, decide_eq_true_iff] at hItem
    obtain ⟨text, hText⟩ := List.head?_eq_some_iff.mp hItem
    -- behind the hyphen the text is trimmed once more
    obtain ⟨more, hMore, hAfter⟩ := exists_dropWhile_eq (text ++ spaces)
    refine ⟨more, hMore, ?_⟩
    rw [trim_append_right text hSpaces] at hAfter
    rw [hText, List.tail_cons, List.cons_append, List.cons_append, List.tail_cons,
      trim_append_cons hc, hAfter, List.rdropWhile_idempotent]
  · exact ⟨spaces, hSpaces, rfl⟩

end Append

/-! ## Layouts -/

/-- A paragraph without items is laid out like any other. -/
theorem paragraph_eq_list (content : Text) :
    paragraph content = list (lines (italicMarkers (italics (mathMarkers content)))) := by
  rw [paragraph]
  cases hItem : (lines (italicMarkers (italics (mathMarkers content)))).any isItem with
  | true => exact if_pos rfl
  | false => exact (if_neg Bool.false_ne_true).trans (list_of_text hItem).symm

namespace LaidOut

variable {a b : List Text} {t u : Text}

theorem append (ha : LaidOut a t) (hb : LaidOut b u) : LaidOut (a ++ b) (t ++ u) := by
  induction ha with
  | nil => exact hb
  | line line hEnding _ ih =>
    have hLine := LaidOut.line line hEnding ih
    simpa only [List.append_assoc, List.cons_append] using hLine
  | piece hPiece _ ih =>
    rw [List.append_assoc]
    exact .piece hPiece ih

theorem infix_of_mem (h : LaidOut a t) {line : Text} (hLine : line ∈ a) :
    writtenLine line <:+: t := by
  induction h with
  | nil => cases hLine
  | line first _ _ ih =>
    rcases List.mem_cons.mp hLine with rfl | hRest
    · exact (List.prefix_append _ _).isInfix
    · apply (ih hRest).trans
      exact (List.suffix_append _ _).isInfix.trans (List.suffix_append _ _).isInfix
  | piece _ _ ih => exact (ih hLine).trans (List.suffix_append _ _).isInfix

end LaidOut

theorem laidOut_piece {piece : Text} (h : piece ∈ layoutPieces) : LaidOut [] piece := by
  have hPiece := LaidOut.piece h .nil
  rwa [List.append_nil] at hPiece

section Run

variable {run : List Text}

theorem laidOut_joinLines (hKept : ∀ line ∈ run, IsKept line)
    (hText : ∀ line ∈ run, isItem line = false) :
    LaidOut run (joinLines (run.map proseLine)) := by
  have hWritten : ∀ line ∈ run, writtenLine line = proseLine line := by
    intro line hLine
    rw [writtenLine, hText line hLine, if_neg Bool.false_ne_true, (hKept line hLine).trim_eq]
  induction run with
  | nil => exact .nil
  | cons line rest ih =>
    obtain ⟨_, hKept⟩ := List.forall_mem_cons.mp hKept
    obtain ⟨_, hText⟩ := List.forall_mem_cons.mp hText
    obtain ⟨hFirst, hWritten⟩ := List.forall_mem_cons.mp hWritten
    have hRest := ih hKept hText hWritten
    rw [List.map_cons, ← hFirst]
    cases rest with
    | nil => exact .line line (Or.inl rfl) .nil
    | cons next rest =>
      have hLine := LaidOut.line line (Or.inr rfl) hRest
      rwa [← List.append_assoc] at hLine

theorem laidOut_items (hKept : ∀ line ∈ run, IsKept line) (hItems : ∀ line ∈ run, isItem line) :
    LaidOut run (run.flatMap fun line => itemLine line.tail) := by
  induction run with
  | nil => exact .nil
  | cons line rest ih =>
    obtain ⟨hFirst, hKept⟩ := List.forall_mem_cons.mp hKept
    obtain ⟨hItem, hItems⟩ := List.forall_mem_cons.mp hItems
    have hWritten :
        writtenLine line = escapeBraces (itemSymbols (textSymbols (trim line.tail))) := by
      rw [writtenLine, if_pos hItem, hFirst.trim_eq]
    have hEntry : itemLine line.tail = "  \\item ".toList ++ writtenLine line ++ ['\n'] := by
      rw [hWritten]
      rfl
    have hLine := LaidOut.line line (Or.inl rfl) (ih hKept hItems)
    rw [List.flatMap_cons, hEntry, List.append_assoc, List.append_assoc]
    exact .piece (by simp [layoutPieces]) hLine

theorem laidOut_layoutRun {items : Bool} (hSome : run ≠ []) (hKept : ∀ line ∈ run, IsKept line)
    (hSort : ∀ line ∈ run, isItem line = items) : LaidOut run (layoutRun run) := by
  cases items with
  | true =>
    have hBegin : listBegin ∈ layoutPieces := by simp [layoutPieces]
    have hEnd : listEnd ∈ layoutPieces := by simp [layoutPieces]
    have hList := (LaidOut.piece hBegin (laidOut_items hKept hSort)).append (laidOut_piece hEnd)
    rw [List.append_nil] at hList
    rwa [layoutRun_of_items hSort]
  | false =>
    rw [layoutRun_of_text hSome hSort]
    exact laidOut_joinLines hKept hSort

theorem laidOut_runs {items : Bool} {runs : List (List Text)} (h : Alternates items runs)
    (hKept : ∀ line ∈ runs.flatten, IsKept line) :
    LaidOut runs.flatten (runs.flatMap layoutRun) := by
  induction h with
  | nil => exact .nil
  | cons hSome hSort _ ih =>
    rw [List.flatten_cons] at hKept
    obtain ⟨hRun, hRest⟩ := List.forall_mem_append.mp hKept
    exact (laidOut_layoutRun hSome hRun hSort).append (ih hRest)

end Run

theorem laidOut_list (lines : List Text) :
    LaidOut ((lines.map trim).filter fun line => !line.isEmpty) (list lines) := by
  rw [list_eq_layoutRuns, layoutRuns]
  generalize hLines : ((lines.map trim).filter fun line => !line.isEmpty) = kept
  have hKept : ∀ line ∈ kept, IsKept line := hLines ▸ isKept_of_mem
  obtain ⟨items, hRuns⟩ := alternates_splitBy kept
  have hLaid := laidOut_runs hRuns (by rwa [List.flatten_splitBy])
  rw [List.flatten_splitBy] at hLaid
  have hNewline : ['\n'] ∈ layoutPieces := by simp [layoutPieces]
  have hEnd := hLaid.append (laidOut_piece hNewline)
  rwa [List.append_nil] at hEnd

theorem writtenLine_infix_list {lines : List Text} {line : Text} (h : line ∈ lines) :
    writtenLine line <:+: list lines := by
  by_cases hBlank : trim line = []
  · rw [writtenLine_of_blank hBlank]
    exact List.nil_infix
  · rw [← writtenLine_trim]
    apply (laidOut_list lines).infix_of_mem
    exact List.mem_filter.mpr ⟨List.mem_map_of_mem h, by simpa using hBlank⟩

end ProseMath.Latex
