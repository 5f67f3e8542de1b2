import Mathlib.Data.List.Permutation
import Mathlib.Data.List.TakeWhile
import Mathlib.Tactic.Common
import ProseMath.Proofs.Document.Position
import ProseMath.Proofs.Latex.Body
import ProseMath.Proofs.Token.Seam

/-!
# Documents put together at blank lines

A blank line ends every block, so what stands in front of it and what stands behind it could be read
as two documents. The one thing that a blank line does not end are the parentheses of the prose: if
some are still open, the lines behind it are read inside them.

* `readLines_append`: lines are read behind others at the depth that their prose leaves.
* `parens_ofPassages`: the depth can be seen in the paragraphs.
* `segments_append_blank`: no run of lines goes over a blank line.
* `Document.parse_append_newline`: a newline at the end of a text does not matter.
* `Document.parse_append_blank_line`: documents compose at blank lines.
-/

namespace ProseMath

open Line

/-! ## Parentheses of texts and of tokens -/

namespace Text

/-- Opening less closing parentheses. -/
def parens (t : Text) : Int := t.count '(' - t.count ')'

theorem parens_append (a b : Text) : parens (a ++ b) = parens a + parens b := by
  simp only [parens, List.count_append]
  omega

theorem parens_of_not_mem {t : Text} (hOpen : '(' ∉ t) (hClose : ')' ∉ t) : parens t = 0 := by
  rw [parens, List.count_eq_zero.mpr hOpen, List.count_eq_zero.mpr hClose]
  rfl

theorem parens_of_isSpace {t : Text} (h : ∀ c ∈ t, isSpace c) : parens t = 0 := by
  apply parens_of_not_mem
  · exact fun hMem => absurd (h _ hMem) (by decide)
  · exact fun hMem => absurd (h _ hMem) (by decide)

theorem parens_trim (t : Text) : parens (trim t) = parens t := by
  obtain ⟨before, after, hBefore, hAfter, hText⟩ := exists_trim t
  have hParens := congrArg parens hText
  rw [parens_append, parens_append, parens_of_isSpace hBefore, parens_of_isSpace hAfter] at hParens
  omega

end Text

namespace Token

theorem Lexical.parens {token : Token} (h : token.Lexical) :
    Text.parens (token.space ++ token.text) = turn token := by
  have hSpace : Text.parens token.space = 0 :=
    Text.parens_of_isSpace fun c hc => isSpace_of_isBlank (h.space c hc)
  rw [Text.parens_append, hSpace, Int.zero_add]
  by_cases hOpen : token.kind = .openParen
  · rw [turn_opened hOpen, h.spells.eq_singleton (c := '(') (by rw [hOpen]; rfl)]
    rfl
  by_cases hClose : token.kind = .closeParen
  · rw [turn_closed hClose, h.spells.eq_singleton (c := ')') (by rw [hClose]; rfl)]
    rfl
  rw [turn_other hOpen hClose]
  apply Text.parens_of_not_mem
  · exact fun hMem => hOpen (h.spells.eq_of_mem_operator rfl (by decide) (by decide) hMem).1
  · exact fun hMem => hClose (h.spells.eq_of_mem_operator rfl (by decide) (by decide) hMem).1

theorem parens_content {tokens : List Token} (h : AllLexical tokens) :
    Text.parens (content tokens) = nesting tokens := by
  induction tokens with
  | nil => rfl
  | cons token rest ih =>
    rw [content_cons, Text.parens_append, h.first.parens, ih h.rest, nesting_cons]

end Token

/-! ## Reading lines behind others -/

/-- The nesting of the lines of prose. -/
def proseNesting : List Passage → Int
  | [] => 0
  | passage :: rest =>
    (if passage.equation.isNone then Token.nesting passage.line.tokens else 0) + proseNesting rest

theorem proseNesting_append (a b : List Passage) :
    proseNesting (a ++ b) = proseNesting a + proseNesting b := by
  induction a with
  | nil => exact (Int.zero_add _).symm
  | cons passage a ih => rw [List.cons_append, proseNesting, proseNesting, ih, Int.add_assoc]

/-- Lines of prose leave their parentheses open for the lines behind them. -/
theorem readLines_append (depth : Nat) (a b : List Line) :
    readLines depth (a ++ b) = do
      let front ← readLines depth a
      let back ← readLines (depth + proseNesting front).toNat b
      return front ++ back := by
  induction a generalizing depth with
  | nil =>
    rw [List.nil_append, readLines]
    simp only [bind, Except.bind, proseNesting, Int.add_zero, Int.toNat_natCast]
    cases readLines depth b <;> rfl
  | cons line a ih =>
    rw [List.cons_append, readLines, readLines]
    cases hVerdict : verdict depth line.tokens with
    | closes token => rfl
    | equation =>
      dsimp only
      cases Equation.parse line.tokens with
      | error e => rfl
      | ok e =>
        rw [ih]
        cases readLines depth a with
        | error e => rfl
        | ok front =>
          have hFront : proseNesting (⟨line, some e⟩ :: front) = proseNesting front :=
            Int.zero_add _
          simp only [bind, Except.bind, pure, Except.pure, hFront]
          cases readLines (depth + proseNesting front).toNat b <;> rfl
    | prose after =>
      dsimp only
      rw [ih]
      cases readLines after a with
      | error e => rfl
      | ok front =>
        have hFront : (depth : Int) + proseNesting (⟨line, none⟩ :: front) =
            after + proseNesting front := by
          rw [nesting_of_verdict hVerdict, Int.add_assoc]
          rfl
        simp only [bind, Except.bind, pure, Except.pure, hFront]
        cases readLines (after + proseNesting front).toNat b <;> rfl

/-- How the last line ends does not matter to its reading. -/
theorem readLines_ending (depth : Nat) (a : List Line) (tokens : List Token) :
    (∃ e, ∀ ending, readLines depth (a ++ [⟨tokens, ending⟩]) = .error e) ∨
      ∃ front equation, ∀ ending, readLines depth (a ++ [⟨tokens, ending⟩]) =
        .ok (front ++ [⟨⟨tokens, ending⟩, equation⟩]) := by
  simp only [readLines_append]
  cases readLines depth a with
  | error e => exact Or.inl ⟨e, fun _ => rfl⟩
  | ok front =>
    simp only [bind, Except.bind, readLines]
    cases verdict (depth + proseNesting front).toNat tokens with
    | closes token => exact Or.inl ⟨_, fun _ => rfl⟩
    | equation =>
      cases Equation.parse tokens with
      | error e => exact Or.inl ⟨e, fun _ => rfl⟩
      | ok equation => exact Or.inr ⟨front, some equation, fun _ => rfl⟩
    | prose after => exact Or.inr ⟨front, none, fun _ => rfl⟩

/-- A newline ends the last line, and another list of lines begins. -/
theorem cut_append_newline (a : List Token) :
    ∃ lines last, cut a = lines ++ [⟨last, none⟩] ∧ ∀ newline b, newline.kind = .newline →
      cut (a ++ newline :: b) = lines ++ ⟨last, some newline⟩ :: cut b := by
  induction a with
  | nil => exact ⟨[], [], rfl, fun newline b hNewline => if_pos hNewline⟩
  | cons token a ih =>
    obtain ⟨lines, last, hCut, hMore⟩ := ih
    by_cases hToken : token.kind = .newline
    · refine ⟨⟨[], some token⟩ :: lines, last, ?_, ?_⟩
      · rw [cut, if_pos hToken, hCut, List.cons_append]
      · intro newline b hNewline
        rw [List.cons_append, cut, if_pos hToken, hMore newline b hNewline, List.cons_append]
    · -- the token goes to the first line, which can be the last one
      cases lines with
      | nil =>
        refine ⟨[], token :: last, ?_, ?_⟩
        · rw [cut, if_neg hToken, hCut]
          rfl
        · intro newline b hNewline
          rw [List.cons_append, cut, if_neg hToken, hMore newline b hNewline]
          rfl
      | cons line lines =>
        refine ⟨⟨token :: line.tokens, line.ending⟩ :: lines, last, ?_, ?_⟩
        · rw [cut, if_neg hToken, hCut]
          rfl
        · intro newline b hNewline
          rw [List.cons_append, cut, if_neg hToken, hMore newline b hNewline]
          rfl

/-! ## Blocks in front of a blank line -/

theorem segments_append_blank {blank : Line} (hBlank : blank.tokens = []) (a b : List Passage) :
    segments (a ++ ⟨blank, none⟩ :: b) = segments a ++ segments b := by
  have hStop : ∀ passage ∈ (Passage.mk blank none :: b).head?, passage.isText = false := by
    intro passage hPassage
    cases hPassage
    exact not_isText_of_nil hBlank
  fun_induction segments a with
  | case1 => exact segments_blank hBlank
  | case2 passage rest e he ih =>
    obtain ⟨line, _⟩ := passage
    subst he
    rw [List.cons_append, segments_equation, ih, List.cons_append]
  | case3 passage rest he hEmpty ih =>
    obtain ⟨line, _⟩ := passage
    subst he
    rw [List.cons_append, segments_blank (by simpa using hEmpty), ih]
  | case4 passage rest he hText ih =>
    obtain ⟨line, _⟩ := passage
    subst he
    rw [List.cons_append, segments_text (by simpa using hText),
      Text.takeWhile_append_stop hStop, Text.dropWhile_append_stop hStop, ih, List.cons_append]

theorem join_ending (lines : List Line) (tokens : List Token) (ending : Option Token) :
    join (lines ++ [⟨tokens, ending⟩]) = join (lines ++ [⟨tokens, none⟩]) := by
  induction lines with
  | nil => rfl
  | cons line lines ih =>
    rw [List.cons_append, List.cons_append, join_cons_of_ne_nil (by simp),
      join_cons_of_ne_nil (by simp), ih]

/-- How the last line ends does not matter to the blocks. -/
theorem block_segments_ending (a : List Passage) (tokens : List Token) (ending : Option Token)
    (equation : Option Equation) :
    (segments (a ++ [⟨⟨tokens, ending⟩, equation⟩])).map Segment.block =
      (segments (a ++ [⟨⟨tokens, none⟩, equation⟩])).map Segment.block := by
  fun_induction segments a with
  | case1 =>
    cases equation with
    | some e => simp only [List.nil_append, segments_equation, List.map_cons]
    | none =>
      by_cases hTokens : tokens = []
      · rw [List.nil_append, List.nil_append, segments_blank hTokens, segments_blank hTokens]
      · rw [List.nil_append, List.nil_append, segments_text hTokens, segments_text hTokens]
        rfl
  | case2 passage rest e he ih =>
    obtain ⟨line, _⟩ := passage
    subst he
    rw [List.cons_append, List.cons_append, segments_equation, segments_equation, List.map_cons,
      List.map_cons, ih]
  | case3 passage rest he hEmpty ih =>
    obtain ⟨line, _⟩ := passage
    subst he
    have hLine : line.tokens = [] := by simpa using hEmpty
    rw [List.cons_append, List.cons_append, segments_blank hLine, segments_blank hLine, ih]
  | case4 passage rest he hText ih =>
    obtain ⟨line, _⟩ := passage
    subst he
    have hLine : line.tokens ≠ [] := by simpa using hText
    rw [List.cons_append, List.cons_append, segments_text hLine, segments_text hLine, List.map_cons,
      List.map_cons]
    rcases Text.run_append (p := Passage.isText) rest with hAll | ⟨_, hSplit⟩
    · rw [List.takeWhile_append_of_pos hAll, List.takeWhile_append_of_pos hAll,
        List.dropWhile_append_of_pos hAll, List.dropWhile_append_of_pos hAll]
      rw [List.dropWhile_eq_nil_iff.mpr hAll, List.nil_append, List.nil_append] at ih
      cases hLast : Passage.isText ⟨⟨tokens, none⟩, equation⟩ with
      | false =>
        have hNone : ∀ ending, ¬ Passage.isText ⟨⟨tokens, ending⟩, equation⟩ := by
          intro ending h
          cases h.symm.trans hLast
        rw [List.takeWhile_cons_of_neg (hNone _), List.takeWhile_cons_of_neg (hNone _),
          List.dropWhile_cons_of_neg (hNone _), List.dropWhile_cons_of_neg (hNone _), ih]
      | true =>
        -- the whole rest is one run with the last line at its end
        have hRun : ∀ ending, Passage.isText ⟨⟨tokens, ending⟩, equation⟩ := fun _ => hLast
        have hJoin := join_ending (line :: rest.map Passage.line) tokens ending
        rw [List.takeWhile_cons_of_pos (hRun _), List.takeWhile_cons_of_pos (hRun _),
          List.dropWhile_cons_of_pos (hRun _), List.dropWhile_cons_of_pos (hRun _),
          Segment.block, Segment.block, List.map_append, List.map_append]
        exact congrArg (fun run => Block.paragraph (Text.trim (Token.content run)) :: _) hJoin
    · rw [(hSplit _).1, (hSplit _).1, (hSplit _).2, (hSplit _).2, ih]

/-! ## The depth that a document leaves -/

def Block.prose : Block → Text
  | .paragraph content => content
  | _ => []

/-- The contents of all paragraphs. -/
def Document.prose (d : Document) : Text := d.blocks.flatMap Block.prose

theorem Line.Proper.parens_ending {line : Line} (h : line.Proper) :
    Text.parens (Token.content line.ending.toList) = 0 := by
  cases hEnding : line.ending with
  | none => rfl
  | some newline =>
    obtain ⟨hLexical, hNewline⟩ := h.ending newline hEnding
    have hTurn : Token.turn newline = 0 :=
      Token.turn_other (by simp [hNewline]) (by simp [hNewline])
    rw [Option.toList_some, Token.parens_content (by simpa [Token.AllLexical] using hLexical),
      Token.nesting_cons, hTurn]
    rfl

theorem parens_join {run : List Passage} (hText : ∀ passage ∈ run, passage.isText)
    (hProper : ∀ passage ∈ run, passage.line.Proper) :
    Text.parens (Token.content (join (run.map Passage.line))) = proseNesting run := by
  induction run with
  | nil => rfl
  | cons passage rest ih =>
    obtain ⟨hFirst, hText⟩ := List.forall_mem_cons.mp hText
    obtain ⟨hLine, hProper⟩ := List.forall_mem_cons.mp hProper
    have hProse : passage.equation.isNone := (Bool.and_eq_true_iff.mp hFirst).1
    have hTokens := Token.parens_content hLine.tokens
    rw [proseNesting, if_pos hProse, ← ih hText hProper, ← hTokens]
    by_cases hRest : rest.map Passage.line = []
    · rw [List.map_cons, hRest]
      exact (Int.add_zero _).symm
    · rw [List.map_cons, join_cons_of_ne_nil hRest, Token.content_append, Token.content_append,
        Text.parens_append, Text.parens_append, hLine.parens_ending, Int.add_zero]

/-- The paragraphs have the parentheses of the lines of prose. -/
theorem parens_ofPassages {passages : List Passage}
    (hProper : ∀ passage ∈ passages, passage.line.Proper) :
    Text.parens (Document.ofPassages passages).prose = proseNesting passages := by
  show Text.parens (((segments passages).map Segment.block).flatMap Block.prose) = _
  fun_induction segments passages with
  | case1 => rfl
  | case2 passage rest e he ih =>
    rw [List.map_cons, List.flatMap_cons, Text.parens_append,
      ih fun p hp => hProper p (List.mem_cons_of_mem _ hp), proseNesting, he]
    rfl
  | case3 passage rest he hBlank ih =>
    have hTokens : passage.line.tokens = [] := by simpa using hBlank
    rw [ih fun p hp => hProper p (List.mem_cons_of_mem _ hp), proseNesting, he, hTokens]
    exact (Int.zero_add _).symm
  | case4 passage rest he hText ih =>
    have hFirst : passage.isText := by simpa [Passage.isText, he] using hText
    have hRun : ∀ p ∈ passage :: rest.takeWhile Passage.isText, p.isText := by
      intro p hp
      rcases List.mem_cons.mp hp with rfl | hp
      · exact hFirst
      · exact List.mem_takeWhile_imp hp
    have hInRun : ∀ p ∈ passage :: rest.takeWhile Passage.isText, p.line.Proper := by
      intro p hp
      rcases List.mem_cons.mp hp with rfl | hp
      · exact hProper p List.mem_cons_self
      · exact hProper p (List.mem_cons_of_mem _ (List.takeWhile_subset _ hp))
    have hBehind : ∀ p ∈ rest.dropWhile Passage.isText, p.line.Proper :=
      fun p hp => hProper p (List.mem_cons_of_mem _ (List.dropWhile_subset _ hp))
    rw [List.map_cons, List.flatMap_cons, Text.parens_append, ih hBehind, Segment.block,
      Block.prose, Text.parens_trim, ← List.map_cons, parens_join hRun hInRun,
      ← proseNesting_append, List.cons_append, List.takeWhile_append_dropWhile]

/-! ## Two documents -/

theorem recast_shift (distance : Nat) : Recast (Token.shift distance) (· + distance) where
  text _ := rfl
  offset _ := rfl
  pivot _ := rfl
  kind _ _ _ := Iff.rfl

theorem Token.content_map_shift (distance : Nat) (tokens : List Token) :
    content (tokens.map (shift distance)) = content tokens := by
  rw [content, List.flatMap_map]
  rfl

theorem tokenize_nil : tokenize [] = [] := by
  rw [tokenize, Cursor.tokens_eq_tokensIn]
  rfl

theorem exists_tokenize_blank_line (a b : Text) :
    ∃ first second, first.kind = .newline ∧ second.kind = .newline ∧
      tokenize (a ++ '\n' :: '\n' :: b) =
        tokenize a ++ first :: second :: (tokenize b).map (Token.shift (a.length + 2)) := by
  obtain ⟨first, hFirst, hTokens⟩ := Token.exists_tokenize_newline a ('\n' :: b)
  obtain ⟨second, hSecond, hLater⟩ := Token.exists_tokenize_newline [] b
  refine ⟨first, Token.shift (a.length + 1) second, hFirst, hSecond, ?_⟩
  have hDistance : 1 + (a.length + 1) = a.length + 2 := by omega
  rw [tokenize_nil, List.nil_append, List.nil_append, List.length_nil, Nat.zero_add] at hLater
  rw [hTokens, hLater, List.map_cons, List.map_map, Token.shift_shift, hDistance]

/-- The lines behind a blank line are read by themselves if no parenthesis is open. -/
theorem readLines_append_blank {front : List Passage} {a : List Line} {blank : Line}
    (hBlank : blank.tokens = []) (hFront : readLines 0 a = .ok front)
    (hDepth : proseNesting front = 0) (b : List Line) :
    readLines 0 (a ++ blank :: b) =
      (readLines 0 b).map fun back => front ++ ⟨blank, none⟩ :: back := by
  have hStart : ((0 : Nat) + proseNesting front).toNat = 0 := by omega
  rw [readLines_append, hFront]
  simp only [bind, Except.bind, hStart, readLines, hBlank, verdict]
  cases readLines 0 b <;> rfl

namespace Document

/-- The reading of a text, and of the text with a blank line and another text behind it. -/
theorem parse_blank_line_cases (a b : Text) :
    (∃ e, parse a = .error e ∧ parse (a ++ '\n' :: '\n' :: b) = .error e) ∨
      ∃ d, parse a = .ok d ∧ (Text.parens d.prose = 0 →
        parse (a ++ '\n' :: '\n' :: b) =
          moved (· + (a.length + 2 : Nat))
            ((parse b).map fun later => ⟨d.blocks ++ later.blocks⟩)) := by
  obtain ⟨first, second, hFirst, hSecond, hTokens⟩ := exists_tokenize_blank_line a b
  obtain ⟨lines, last, hCut, hMore⟩ := cut_append_newline (tokenize a)
  have hBoth : cut (tokenize (a ++ '\n' :: '\n' :: b)) =
      (lines ++ [⟨last, some first⟩]) ++ ⟨[], some second⟩ ::
        (cut (tokenize b)).map (Line.map (Token.shift (a.length + 2))) := by
    rw [hTokens, hMore _ _ hFirst, cut, if_pos hSecond, cut_map (recast_shift _), List.append_assoc]
    rfl
  rw [parse_eq_map_readLines a, parse_eq_map_readLines b, parse_eq_map_readLines, hBoth, hCut]
  rcases readLines_ending 0 lines last with ⟨e, hError⟩ | ⟨front, equation, hOk⟩
  · rw [hError, readLines_append, hError]
    exact Or.inl ⟨e, rfl, rfl⟩
  · refine Or.inr ⟨ofPassages (front ++ [⟨⟨last, none⟩, equation⟩]), by rw [hOk]; rfl, ?_⟩
    intro hParens
    have hProper := proper_of_readLines (Token.lexical_tokenize a) (hCut ▸ hOk none)
    rw [parens_ofPassages hProper] at hParens
    have hDepth : proseNesting (front ++ [⟨⟨last, some first⟩, equation⟩]) = 0 := by
      rw [proseNesting_append] at hParens ⊢
      exact hParens
    rw [readLines_append_blank rfl (hOk _) hDepth, readLines_map (recast_shift _)]
    cases readLines 0 (cut (tokenize b)) with
    | error e => rfl
    | ok back =>
      have hBlocks := block_segments_ending front last (some first) equation
      refine congrArg (fun blocks => Except.ok (Document.mk blocks)) ?_
      rw [segments_append_blank rfl, List.map_append, hBlocks]
      exact congrArg (_ ++ Document.blocks ·) (ofPassages_map (Token.content_map_shift _) back)

/-- A newline at the end of a text does not change what is read. -/
theorem parse_append_newline (t : Text) : parse (t ++ ['\n']) = parse t := by
  obtain ⟨newline, hNewline, hTokens⟩ := Token.exists_tokenize_newline t []
  obtain ⟨lines, last, hCut, hMore⟩ := cut_append_newline (tokenize t)
  have hBoth : cut (tokenize (t ++ ['\n'])) =
      (lines ++ [⟨last, some newline⟩]) ++ [⟨[], none⟩] := by
    rw [hTokens, hMore _ _ hNewline, tokenize_nil, List.append_assoc]
    rfl
  rw [parse_eq_map_readLines t, parse_eq_map_readLines, hBoth, hCut, readLines_append]
  rcases readLines_ending 0 lines last with ⟨e, hError⟩ | ⟨front, equation, hOk⟩
  · rw [hError, hError]
    rfl
  · rw [hOk, hOk]
    -- the newline ends the last line, and behind it there is only an empty one
    refine congrArg (fun blocks => Except.ok (Document.mk blocks)) ?_
    rw [segments_append_blank rfl, segments_nil, List.append_nil, block_segments_ending]

theorem exists_offset_of_parse {t : Text} {e : SyntaxError} (h : parse t = .error e) :
    ∃ offset, e.offset = some offset := by
  obtain ⟨_, _, hBlamed⟩ := exists_blamed_of_parse h
  obtain ⟨token, _, hOffset⟩ := hBlamed.exists_offset
  exact ⟨token.offset, hOffset⟩

/-- Documents compose at blank lines, unless the prose of the first one leaves parentheses open. -/
theorem parse_append_blank_line (a b : Text) :
    (∀ e, parse a = .error e → parse (a ++ '\n' :: '\n' :: b) = .error e) ∧
    ∀ d, parse a = .ok d → d.prose.count '(' = d.prose.count ')' →
      (∀ later, parse b = .ok later →
        parse (a ++ '\n' :: '\n' :: b) = .ok ⟨d.blocks ++ later.blocks⟩ ∧
          ∃ s t, Latex.body d = .ok s ∧ Latex.body later = .ok t ∧
            Latex.body ⟨d.blocks ++ later.blocks⟩ = .ok (s ++ t)) ∧
      ∀ e, parse b = .error e → ∃ offset, e.offset = some offset ∧
        parse (a ++ '\n' :: '\n' :: b) = .error ⟨e.fault, some (offset + (a.length + 2))⟩ := by
  rcases parse_blank_line_cases a b with ⟨e, hFirst, hBoth⟩ | ⟨d, hFirst, hBoth⟩
  · rw [hFirst]
    refine ⟨?_, fun d hd => (nomatch hd)⟩
    intro e hError
    cases hError
    exact hBoth
  · rw [hFirst]
    refine ⟨fun e hError => (nomatch hError), ?_⟩
    intro d hd hCount
    cases hd
    have hParens : Text.parens d.prose = 0 := by
      rw [Text.parens]
      omega
    rw [hBoth hParens]
    constructor
    · intro later hLater
      obtain ⟨s, hs⟩ := Latex.exists_body hFirst
      obtain ⟨t, ht⟩ := Latex.exists_body hLater
      rw [hLater]
      exact ⟨rfl, s, t, hs, ht, Latex.body_append hs ht⟩
    · intro e hError
      obtain ⟨offset, hOffset⟩ := exists_offset_of_parse hError
      refine ⟨offset, hOffset, ?_⟩
      rw [hError]
      show Except.error (SyntaxError.moved _ e) = _
      rw [SyntaxError.moved, hOffset]
      rfl

/-- Nothing is read behind `see)`. Behind `see (a)` there can be an equation, and an error in it is
reported nine characters further on. -/
theorem parse_append_blank_line_see :
    parse ("see)".toList ++ '\n' :: '\n' :: "y=1".toList) = .error ⟨.unexpectedClose, some 3⟩ ∧
      parse ("see (a)".toList ++ '\n' :: '\n' :: "y=1".toList) =
        .ok ⟨[.paragraph "see (a)".toList, .equation ⟨.identifier ['y'], .identifier ['1']⟩]⟩ ∧
      parse ("see (a)".toList ++ '\n' :: '\n' :: "y=sum".toList) =
        .error ⟨.notFollowedByOpen .sum, some 11⟩ := by
  have hClosed : parse "see)".toList = .error ⟨.unexpectedClose, some 3⟩ := by
    rw [parse_eq_map_readLines]
    cbv
  have hSee : parse "see (a)".toList = .ok ⟨[.paragraph "see (a)".toList]⟩ := by
    rw [parse_eq_map_readLines]
    cbv
  have hEquation :
      parse "y=1".toList = .ok ⟨[.equation ⟨.identifier ['y'], .identifier ['1']⟩]⟩ := by
    rw [parse_eq_map_readLines]
    cbv
  have hSum : parse "y=sum".toList = .error ⟨.notFollowedByOpen .sum, some 2⟩ := by
    rw [parse_eq_map_readLines]
    cbv
  obtain ⟨hOk, _⟩ := (parse_append_blank_line "see (a)".toList "y=1".toList).2 _ hSee rfl
  obtain ⟨_, hError⟩ := (parse_append_blank_line "see (a)".toList "y=sum".toList).2 _ hSee rfl
  obtain ⟨offset, hOffset, hError⟩ := hError _ hSum
  cases hOffset
  exact ⟨(parse_append_blank_line _ _).1 _ hClosed, (hOk _ hEquation).1, hError⟩

end Document

end ProseMath
