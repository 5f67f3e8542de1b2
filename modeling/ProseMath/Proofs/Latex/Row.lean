import Mathlib.Data.List.Permutation
import Mathlib.Tactic.Common
import ProseMath.Proofs.Expr.Mark
import ProseMath.Proofs.Latex.Body
import ProseMath.Proofs.Latex.Typeset

/-!
# The lines of a body

A block that was read is written as lines none of which is empty, with an empty line behind them
(`Chunk`), and the inline mathematics of these lines are the commands of symbols.

* `ListLayout.Sound.line`, `ListLayout.Sound.foldl`: lists and the text between them, line by line.
* `chunk_paragraph`, `chunk_display`: blocks of the two sorts.
* `exists_chunks`: the body of a document that was read.
* `body_inline_math`: the dollar signs in a line of the body.
-/

namespace ProseMath.Latex

open Text

/-- A line that is not empty. -/
structure Row (commands : List Text) (line : Text) : Prop where
  typeset : Typeset commands line
  ne_nil : line ≠ []

/-- Lines that are not empty, each with a line feed behind it. -/
inductive Rows (commands : List Text) : Text → Prop
  | nil : Rows commands []
  | cons {line t : Text} (hLine : Row commands line) (hRest : Rows commands t) :
    Rows commands (line ++ '\n' :: t)

/-- The lines of a block and the empty line behind it. -/
inductive Chunk : Text → Prop
  | intro {t : Text} (hRows : Rows symbolCommands t) (hSome : t ≠ []) : Chunk (t ++ ['\n'])

section Rows

variable {commands : List Text} {a b : Text}

theorem Rows.append (ha : Rows commands a) (hb : Rows commands b) : Rows commands (a ++ b) := by
  induction ha with
  | nil => exact hb
  | cons hLine _ ih =>
    rw [List.append_assoc]
    exact .cons hLine ih

theorem Row.append_plain (h : Row commands a) (hb : b.all isPlain) : Row commands (a ++ b) :=
  ⟨h.typeset.append_all hb, List.append_ne_nil_of_left_ne_nil h.ne_nil b⟩

theorem rows_joinLines {lines : List Text} (h : ∀ line ∈ lines, Row commands line) :
    Rows commands (joinLines lines) := by
  fun_induction joinLines lines with
  | case1 => exact .nil
  | case2 line => exact .cons (h line List.mem_cons_self) .nil
  | case3 line next rest ih =>
    obtain ⟨hLine, hRest⟩ := List.forall_mem_cons.mp h
    have hBreak : Row commands (line ++ "\\newline".toList) := hLine.append_plain (by decide)
    have hRows := Rows.cons hBreak (ih hRest)
    rwa [List.append_assoc] at hRows ⊢

theorem joinLines_ne_nil {lines : List Text} (h : lines ≠ []) : joinLines lines ≠ [] := by
  fun_cases joinLines lines with
  | case1 => exact absurd rfl h
  | case2 line => simp
  | case3 line next rest => simp

theorem rows_plain (line : Text) (hPlain : line.all isPlain) (hSome : line ≠ []) :
    Rows commands (line ++ ['\n']) :=
  .cons ⟨typeset_of_all hPlain, hSome⟩ .nil

end Rows

theorem row_proseLine {t : Text} (h : ∀ c ∈ t, isPlain c) (hSome : t ≠ []) :
    Row symbolCommands (proseLine t) :=
  ⟨typeset_proseLine h, proseLine_ne_nil (forall_isPlain_iff.mp h).1 hSome⟩

/-! ## Lists -/

namespace ListLayout

/-- What has been written are lines, and so are the lines that wait. -/
structure Sound (s : ListLayout) : Prop where
  out : Rows symbolCommands s.out
  pending : ∀ line ∈ s.pending, Row symbolCommands line

theorem sound_start : start.Sound := ⟨.nil, by simp [start]⟩

theorem rows_listBegin : Rows symbolCommands listBegin :=
  rows_plain "\\begin\x7bitemize\x7d".toList (by decide) (by decide)

theorem rows_listEnd : Rows symbolCommands listEnd :=
  rows_plain "\\end\x7bitemize\x7d".toList (by decide) (by decide)

theorem rows_ending (inList : Bool) : Rows symbolCommands (if inList then listEnd else []) := by
  split
  · exact rows_listEnd
  · exact .nil

theorem rows_itemLine {t : Text} (h : ∀ c ∈ t, isPlain c) : Rows symbolCommands (itemLine t) := by
  have hText : ∀ c ∈ trim t, isPlain c := fun c hc => h c (trim_subset t hc)
  have hItem : Typeset symbolCommands "  \\item ".toList := typeset_of_all (by decide)
  exact .cons ⟨hItem.append (typeset_item hText), by simp⟩ .nil

namespace Sound

variable {s : ListLayout} {t : Text}

theorem item (h : s.Sound) (ht : ∀ c ∈ t, isPlain c) : (s.item t).Sound := by
  have hBegin : Rows symbolCommands (if s.inList then [] else listBegin) := by
    split
    · exact .nil
    · exact rows_listBegin
  exact ⟨((h.out.append (rows_joinLines h.pending)).append hBegin).append (rows_itemLine ht),
    List.forall_mem_nil _⟩

theorem text (h : s.Sound) (ht : ∀ c ∈ t, isPlain c) (hSome : t ≠ []) : (s.text t).Sound := by
  refine ⟨h.out.append (rows_ending _), List.forall_mem_append.mpr ⟨h.pending, ?_⟩⟩
  rintro line hLine
  rw [List.mem_singleton.mp hLine]
  exact row_proseLine ht hSome

/-- A line that is not blank is written as an item or as text, and a blank one not at all. -/
theorem line (h : s.Sound) (ht : ∀ c ∈ t, isPlain c) : (s.line t).Sound := by
  have hTrim : ∀ c ∈ trim t, isPlain c := fun c hc => ht c (trim_subset t hc)
  rw [ListLayout.line]
  cases hText : trim t with
  | nil => exact h
  | cons c rest =>
    rw [hText] at hTrim
    dsimp only
    split
    · exact h.item (List.forall_mem_cons.mp hTrim).2
    · exact h.text hTrim (List.cons_ne_nil c rest)

theorem foldl (h : s.Sound) {lines : List Text} (hLines : ∀ line ∈ lines, ∀ c ∈ line, isPlain c) :
    (lines.foldl ListLayout.line s).Sound := by
  induction lines generalizing s with
  | nil => exact h
  | cons line rest ih =>
    obtain ⟨hLine, hRest⟩ := List.forall_mem_cons.mp hLines
    exact ih (h.line hLine) hRest

theorem finish (h : s.Sound) (hSome : s.out ++ joinLines s.pending ≠ []) : Chunk s.finish := by
  refine .intro ((h.out.append (rows_joinLines h.pending)).append (rows_ending _)) ?_
  exact List.append_ne_nil_of_left_ne_nil hSome _

end Sound

theorem line_ne_nil (s : ListLayout) {t : Text} (h : trim t ≠ []) :
    (s.line t).out ++ joinLines (s.line t).pending ≠ [] := by
  obtain ⟨c, rest, hText⟩ := List.exists_cons_of_ne_nil h
  rw [line, hText]
  dsimp only
  split
  · have hItem : itemLine rest ≠ [] := List.append_ne_nil_of_right_ne_nil _ (List.cons_ne_nil _ _)
    have hOut : (s.item rest).out ≠ [] := List.append_ne_nil_of_right_ne_nil _ hItem
    exact List.append_ne_nil_of_left_ne_nil hOut _
  · have hPending : (s.text (c :: rest)).pending ≠ [] := by simp [text]
    exact List.append_ne_nil_of_right_ne_nil _ (joinLines_ne_nil hPending)

end ListLayout

theorem chunk_list {lines : List Text} (hPlain : ∀ line ∈ lines, ∀ c ∈ line, isPlain c)
    (hText : ∀ line ∈ lines, trim line ≠ []) (hSome : lines ≠ []) : Chunk (list lines) := by
  apply (ListLayout.sound_start.foldl hPlain).finish
  have hLast := ListLayout.line_ne_nil (lines.dropLast.foldl ListLayout.line .start)
    (hText _ (List.getLast_mem hSome))
  rwa [← List.foldl_concat ListLayout.line, List.dropLast_concat_getLast hSome] at hLast

/-! ## Paragraphs -/

theorem plain_of_mem_keptLines {t line : Text} (hDollar : '$' ∉ t) (h : line ∈ keptLines t) :
    ∀ c ∈ line, isPlain c := by
  obtain ⟨_, hNewline, hSubset⟩ := of_mem_keptLines h
  exact forall_isPlain_iff.mpr ⟨fun hMem => hDollar (hSubset hMem), hNewline⟩

theorem keptLines_wrapBoth_ne_nil {t : Text} (h : trim t ≠ []) : keptLines (wrapBoth t) ≠ [] := by
  intro hNone
  have hText : ∃ c ∈ t, ¬ isSpace c := by
    by_contra hBlank
    exact h (trim_eq_nil_iff.mpr (by simpa using hBlank))
  have hBrace : ¬ isSpace '{' := by decide
  have hBoth : ∃ c ∈ wrapBoth t, ¬ isSpace c :=
    exists_mem_wrapMarked hBrace (exists_mem_wrapMarked hBrace hText)
  obtain ⟨c, hc, hSpace⟩ := hBoth
  exact hSpace (isSpace_of_keptLines_eq_nil hNone c hc)

theorem chunk_paragraph {t : Text} (hDollar : '$' ∉ t) (h : trim t ≠ []) : Chunk (paragraph t) := by
  have hBoth : '$' ∉ wrapBoth t := dollar_not_mem_wrapBoth hDollar
  have hSome := keptLines_wrapBoth_ne_nil h
  have hPlain : ∀ line ∈ keptLines (wrapBoth t), ∀ c ∈ line, isPlain c :=
    fun line hLine => plain_of_mem_keptLines hBoth hLine
  have hText : ∀ line ∈ keptLines (wrapBoth t), trim line ≠ [] :=
    fun line hLine => (of_mem_keptLines hLine).1
  rw [paragraph_eq_layout hDollar, layout]
  split
  · exact chunk_list hPlain hText hSome
  · refine .intro (rows_joinLines ?_) (joinLines_ne_nil (by simpa using hSome))
    intro row hRow
    obtain ⟨line, hLine, rfl⟩ := List.mem_map.mp hRow
    apply row_proseLine (hPlain line hLine)
    rintro rfl
    exact hText [] hLine rfl

/-! ## Equations -/

theorem typeset_mathSymbols {commands : List Text} {t : Text} (h : ∀ c ∈ t, isPlain c) :
    Typeset commands (mathSymbols t) := by
  have hGreek : greek.all (·.2.all isPlain) := by decide
  apply typeset_replaceWords _ h
  intro entry hEntry
  exact typeset_of_all (List.all_eq_true.mp hGreek entry hEntry)

theorem typeset_intercalate {commands : List Text} {texts : List Text}
    (h : ∀ t ∈ texts, Typeset commands t) : Typeset commands ([' '].intercalate texts) := by
  induction texts with
  | nil => exact .nil
  | cons t rest ih =>
    obtain ⟨ht, hRest⟩ := List.forall_mem_cons.mp h
    by_cases hLast : rest = []
    · rw [hLast, List.intercalate_singleton]
      exact ht
    · rw [List.intercalate_cons_of_ne_nil hLast, List.append_assoc]
      exact ht.append (.char (by decide) (ih hRest))

section Formula

variable {commands : List Text}

theorem typeset_sign {x y : Except MissingNode Text} {sign t : Text} (hSign : sign.all isPlain)
    (hx : ∀ left, x = .ok left → Typeset commands left)
    (hy : ∀ right, y = .ok right → Typeset commands right)
    (h : (do let left ← x; let right ← y; return left ++ sign ++ right) = .ok t) :
    Typeset commands t := by
  obtain ⟨left, hLeft, h⟩ := Expr.exists_of_bind_eq_ok h
  obtain ⟨right, hRight, h⟩ := Expr.exists_of_bind_eq_ok h
  cases h
  exact ((hx left hLeft).append_all hSign).append (hy right hRight)

mutual

theorem typeset_formula : ∀ {e : Expr} {t : Text}, formula e = .ok t →
    (∀ c, Mark.char c ∈ e.marks → isPlain c) → Typeset commands t
  | .missing, t, h, _ => by
    rw [formula] at h
    cases h
  | .identifier name, t, h, hPlain => by
    rw [formula] at h
    cases h
    apply typeset_mathSymbols
    intro c hc
    exact hPlain c (by rw [Expr.marks]; exact List.mem_map_of_mem hc)
  | .plus left right, t, h, hPlain => by
    rw [formula] at h
    simp only [Expr.marks, List.mem_append, List.mem_cons] at hPlain
    refine typeset_sign (by decide) ?_ ?_ h
    · exact fun _ hLeft => typeset_formula hLeft fun c hc => hPlain c (Or.inl hc)
    · exact fun _ hRight => typeset_formula hRight fun c hc => hPlain c (Or.inr (Or.inr hc))
  | .equation lhs rhs, t, h, hPlain => by
    rw [formula] at h
    simp only [Expr.marks, List.mem_append, List.mem_cons] at hPlain
    refine typeset_sign (by decide) ?_ ?_ h
    · exact fun _ hLeft => typeset_formula hLeft fun c hc => hPlain c (Or.inl hc)
    · exact fun _ hRight => typeset_formula hRight fun c hc => hPlain c (Or.inr (Or.inr hc))
  | .sum lower upper body, t, h, hPlain => by
    rw [formula] at h
    obtain ⟨first, hFirst, h⟩ := Expr.exists_of_bind_eq_ok h
    obtain ⟨second, hSecond, h⟩ := Expr.exists_of_bind_eq_ok h
    obtain ⟨third, hThird, h⟩ := Expr.exists_of_bind_eq_ok h
    cases h
    have hLower := typeset_formula hFirst fun c hc =>
      hPlain c (by simp [Expr.marks, Mark.enclose, List.intercalate, hc])
    have hUpper := typeset_formula hSecond fun c hc =>
      hPlain c (by simp [Expr.marks, Mark.enclose, List.intercalate, hc])
    have hBody := typeset_formula hThird fun c hc =>
      hPlain c (by simp [Expr.marks, Mark.enclose, List.intercalate, hc])
    have hBound : Typeset commands ("\\sum_\x7b".toList ++ first) :=
      (typeset_of_all (by decide)).append hLower
    exact (((hBound.append_all (by decide)).append hUpper).append_all (by decide)).append hBody
  | .fraction numerator denominator, t, h, hPlain => by
    rw [formula] at h
    obtain ⟨first, hFirst, h⟩ := Expr.exists_of_bind_eq_ok h
    obtain ⟨second, hSecond, h⟩ := Expr.exists_of_bind_eq_ok h
    cases h
    have hNumerator := typeset_formula hFirst fun c hc =>
      hPlain c (by simp [Expr.marks, Mark.enclose, List.intercalate, hc])
    have hDenominator := typeset_formula hSecond fun c hc =>
      hPlain c (by simp [Expr.marks, Mark.enclose, List.intercalate, hc])
    exact ((((typeset_of_all (by decide)).append hNumerator).append_all (by decide)).append
      hDenominator).append_all (by decide)
  | .sequence items, t, h, hPlain => by
    rw [formula] at h
    obtain ⟨texts, hTexts, h⟩ := Expr.exists_of_bind_eq_ok h
    cases h
    exact typeset_intercalate (typeset_formulas hTexts fun c hc => hPlain c (by rwa [Expr.marks]))

theorem typeset_formulas : ∀ {items : List Expr} {texts : List Text}, formulas items = .ok texts →
    (∀ c, Mark.char c ∈ Expr.marksAll items → isPlain c) → ∀ t ∈ texts, Typeset commands t
  | [], texts, h, _ => by
    rw [formulas] at h
    cases h
    exact List.forall_mem_nil _
  | item :: rest, texts, h, hPlain => by
    rw [formulas] at h
    obtain ⟨first, hFirst, h⟩ := Expr.exists_of_bind_eq_ok h
    obtain ⟨later, hLater, h⟩ := Expr.exists_of_bind_eq_ok h
    cases h
    simp only [Expr.marksAll, List.mem_append] at hPlain
    exact List.forall_mem_cons.mpr ⟨typeset_formula hFirst fun c hc => hPlain c (Or.inl hc),
      typeset_formulas hLater fun c hc => hPlain c (Or.inr hc)⟩

end

end Formula

theorem isPlain_of_mem_marks {tokens : List Token} (hLexical : Token.AllLexical tokens)
    (hLine : ∀ token ∈ tokens, token.kind ≠ .newline) {c : Char}
    (h : Mark.char c ∈ Token.marks tokens) : isPlain c := by
  have hText : c ∈ Token.stringify tokens := by
    rw [← Token.chars_marks]
    exact List.mem_flatMap.mpr ⟨.char c, h, List.mem_singleton_self c⟩
  obtain ⟨token, hToken, hc⟩ := List.mem_flatMap.mp hText
  have hSpells := (hLexical token hToken).spells
  exact forall_isPlain_iff.mpr
    ⟨hSpells.not_mem_dollar, hSpells.not_mem_newline (hLine token hToken)⟩ c hc

theorem chunk_display {tokens : List Token} (hLexical : Token.AllLexical tokens)
    (hLine : ∀ token ∈ tokens, token.kind ≠ .newline) {e : Equation}
    (h : Equation.parse tokens = .ok e) : ∃ t, display e = .ok t ∧ Chunk t := by
  obtain ⟨t, hDisplay⟩ := exists_display h
  refine ⟨t, hDisplay, ?_⟩
  rw [display] at hDisplay
  obtain ⟨value, hValue, hDisplay⟩ := Expr.exists_of_bind_eq_ok hDisplay
  cases hDisplay
  have hFormula : Typeset symbolCommands value := typeset_formula hValue fun c hc =>
    isPlain_of_mem_marks hLexical hLine (by rwa [Equation.marks_eq h hLexical])
  have hBegin : Typeset symbolCommands "\\[".toList := typeset_of_all (by decide)
  have hRow : Row symbolCommands ("\\[".toList ++ value ++ "\\]".toList) :=
    ⟨(hBegin.append hFormula).append_all (by decide), by simp⟩
  have hChunk := Chunk.intro (.cons hRow .nil) (by simp)
  rwa [List.append_assoc, List.append_assoc] at hChunk

/-! ## Documents -/

theorem chunk_block {b : Block} (h : b.Proper) : ∃ t, block b = .ok t ∧ Chunk t := by
  cases h with
  | equation hLexical hLine hParse => exact chunk_display hLexical hLine hParse
  | @paragraph tokens hLexical hText =>
    have hDollar : '$' ∉ trim (Token.content tokens) :=
      fun hMem => Token.not_mem_content hLexical (trim_subset _ hMem)
    exact ⟨_, rfl, chunk_paragraph hDollar (by rwa [trim_trim])⟩

theorem exists_map_block {blocks : List Block} (h : ∀ b ∈ blocks, b.Proper) :
    ∃ chunks : List Text, blocks.map block = chunks.map .ok ∧ ∀ chunk ∈ chunks, Chunk chunk := by
  induction blocks with
  | nil => exact ⟨[], rfl, List.forall_mem_nil _⟩
  | cons b rest ih =>
    obtain ⟨hBlock, hRest⟩ := List.forall_mem_cons.mp h
    obtain ⟨first, hFirst, hChunk⟩ := chunk_block hBlock
    obtain ⟨later, hLater, hChunks⟩ := ih hRest
    refine ⟨first :: later, ?_, List.forall_mem_cons.mpr ⟨hChunk, hChunks⟩⟩
    rw [List.map_cons, List.map_cons, hFirst, hLater]

/-- The body of a document that was read, block by block. -/
theorem exists_chunks {t : Text} {d : Document} (h : Document.parse t = .ok d) :
    ∃ chunks : List Text, d.blocks.map block = chunks.map .ok ∧
      body d = .ok chunks.flatten ∧ ∀ chunk ∈ chunks, Chunk chunk := by
  obtain ⟨chunks, hMap, hChunks⟩ := exists_map_block (Document.proper_of_parse h)
  exact ⟨chunks, hMap, body_of_map hMap, hChunks⟩

/-! ## Lines -/

theorem Rows.typeset_lines {commands : List Text} {t more : Text} (h : Rows commands t)
    (hMore : ∀ line ∈ lines more, Typeset commands line)
    (hCommands : ∀ command ∈ commands, ∀ c ∈ command, isPlain c) :
    ∀ line ∈ lines (t ++ more), Typeset commands line := by
  induction h with
  | nil => exact hMore
  | cons hLine _ ih =>
    rw [List.append_assoc, List.cons_append, lines_append_newline,
      lines_of_not_mem (hLine.typeset.not_mem_newline hCommands)]
    exact List.forall_mem_append.mpr ⟨by simpa using hLine.typeset, ih⟩

theorem typeset_lines_flatten {chunks : List Text} (h : ∀ chunk ∈ chunks, Chunk chunk) :
    ∀ line ∈ lines chunks.flatten, Typeset symbolCommands line := by
  have hEmpty {t : Text} (ht : ∀ line ∈ lines t, Typeset symbolCommands line) :
      ∀ line ∈ lines ('\n' :: t), Typeset symbolCommands line := by
    rw [← List.nil_append ('\n' :: t), lines_append_newline, lines_of_not_mem List.not_mem_nil]
    exact List.forall_mem_append.mpr ⟨by simpa using Typeset.nil, ht⟩
  induction chunks with
  | nil =>
    rw [List.flatten_nil, lines_of_not_mem List.not_mem_nil]
    simpa using Typeset.nil
  | cons chunk rest ih =>
    obtain ⟨hChunk, hRest⟩ := List.forall_mem_cons.mp h
    obtain ⟨hRows, _⟩ := hChunk
    rw [List.flatten_cons, List.append_assoc]
    exact hRows.typeset_lines (hEmpty (ih hRest)) isPlain_symbolCommands

/-- In the body of a document that was read the dollar signs of a line come in pairs, and between
the two signs of a pair stands the command of a symbol. -/
theorem body_inline_math {t : Text} {d : Document} (h : Document.parse t = .ok d) :
    ∃ s, body d = .ok s ∧ ∀ line ∈ lines s,
      line.count '$' % 2 = 0 ∧
      ∀ index piece, (line.splitOn '$')[2 * index + 1]? = some piece → piece ∈ symbolCommands := by
  obtain ⟨chunks, _, hBody, hChunks⟩ := exists_chunks h
  refine ⟨chunks.flatten, hBody, fun line hLine => ?_⟩
  have hTypeset := typeset_lines_flatten hChunks line hLine
  exact ⟨hTypeset.even_count isPlain_symbolCommands,
    fun index piece hPiece => hTypeset.mem_of_odd isPlain_symbolCommands hPiece⟩

/-- A word for a symbol, and an item with a Greek letter and a multiplication sign. -/
theorem body_inline_math_item :
    Document.parse "a element M\n- beta x 3".toList =
      .ok ⟨[.paragraph "a element M\n- beta x 3".toList]⟩ ∧
    ∃ s, body ⟨[.paragraph "a element M\n- beta x 3".toList]⟩ = .ok s ∧ ∀ line ∈ lines s,
      line.count '$' % 2 = 0 ∧
      ∀ index piece, (line.splitOn '$')[2 * index + 1]? = some piece → piece ∈ symbolCommands := by
  have hParse : Document.parse "a element M\n- beta x 3".toList =
      .ok ⟨[.paragraph "a element M\n- beta x 3".toList]⟩ := by cbv
  exact ⟨hParse, body_inline_math hParse⟩

end ProseMath.Latex
