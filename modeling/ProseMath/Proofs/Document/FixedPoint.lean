import Mathlib.Data.List.Basic
import Mathlib.Tactic.Common
import ProseMath.Proofs.Document.Composition
import ProseMath.Proofs.Text.Padding

/-!
# Paragraphs are read as they are

The content of a paragraph can be read again. Its tokens need not come back, since names and numbers
can grow together where a character was dropped between them. But parentheses, equals signs and
newlines are always tokens of their own, and only these decide whether tokens are prose and where
their lines end. So this can be seen in the characters of the tokens, and the characters come back.

* `verdict_eq_prose_iff`: whether tokens are prose, character by character.
* `lines_stringify`: lines of tokens, character by character.
* `IsProse.of_stringify`: tokens of the same characters are prose together.
* `IsProse.parse`: prose is read as one paragraph.
* `isProse_of_mem_segments`: paragraphs are prose if their parentheses match.
* `Document.parse_paragraph`: a paragraph is read as it is.
-/

namespace ProseMath

open Line

/-! ## Prose, character by character -/

/-- How many parentheses are open behind a text that stands inside `depth` of them; none if it
closes one too many or has an equals sign outside of them. -/
def Text.depthBehind? (depth : Nat) : Text → Option Nat
  | [] => some depth
  | c :: t =>
    if c = '(' then depthBehind? (depth + 1) t
    else if c = ')' then if depth = 0 then none else depthBehind? (depth - 1) t
    else if c = '=' then if depth = 0 then none else depthBehind? depth t
    else depthBehind? depth t

theorem Text.depthBehind?_append {a : Text} (hOpen : '(' ∉ a) (hClose : ')' ∉ a)
    (hEquals : '=' ∉ a) (depth : Nat) (b : Text) :
    depthBehind? depth (a ++ b) = depthBehind? depth b := by
  induction a with
  | nil => rfl
  | cons c a ih =>
    rw [List.mem_cons, not_or] at hOpen hClose hEquals
    rw [List.cons_append, depthBehind?, if_neg (Ne.symm hOpen.1), if_neg (Ne.symm hClose.1),
      if_neg (Ne.symm hEquals.1), ih hOpen.2 hClose.2 hEquals.2]

namespace Token

theorem Lexical.text_of_newline {token : Token} (h : token.Lexical)
    (hNewline : token.kind = .newline) : token.text = ['\n'] :=
  (hNewline ▸ h.spells).eq_newline

theorem filter_content {tokens : List Token} (h : AllLexical tokens) :
    (content tokens).filter (fun c => !isBlank c) = stringify tokens := by
  induction tokens with
  | nil => rfl
  | cons token rest ih =>
    have hSpace : token.space.filter (fun c => !isBlank c) = [] := by
      rw [List.filter_eq_nil_iff]
      intro c hc
      simp [h.first.space c hc]
    have hText : token.text.filter (fun c => !isBlank c) = token.text := by
      rw [List.filter_eq_self]
      intro c hc
      simp [h.first.spells.not_isBlank c hc]
    rw [content_cons, List.filter_append, List.filter_append, hSpace, hText, ih h.rest,
      List.nil_append, stringify_cons]

/-- Content ends with the last token. -/
theorem not_isSpace_getLast? {tokens : List Token} (h : AllLexical tokens)
    (hLast : ∀ token ∈ tokens.getLast?, token.kind ≠ .newline) :
    ∀ c ∈ (content tokens).getLast?, Text.isSpace c = false := by
  intro c hc
  rcases List.eq_nil_or_concat tokens with rfl | ⟨front, token, rfl⟩
  · cases hc
  · rw [List.concat_eq_append] at h hLast hc
    have hSpells := h.right.first.spells
    have hContent : content [token] = token.space ++ token.text := List.append_nil _
    rw [content_append, hContent, ← List.append_assoc,
      List.getLast?_append_of_ne_nil _ hSpells.text_ne_nil] at hc
    exact hSpells.not_isSpace (hLast token (by simp)) c (List.mem_of_mem_getLast? hc)

theorem verdict_eq_prose_iff {tokens : List Token} (h : AllLexical tokens) {depth after : Nat} :
    verdict depth tokens = .prose after ↔
      Text.depthBehind? depth (stringify tokens) = some after := by
  induction tokens generalizing depth with
  | nil => simp [verdict, stringify, Text.depthBehind?]
  | cons token rest ih =>
    have hSpells := h.first.spells
    rw [stringify_cons]
    by_cases hOpen : token.kind = .openParen
    · rw [verdict_opened depth rest hOpen, ih h.rest,
        hSpells.eq_singleton (c := '(') (by rw [hOpen]; rfl)]
      rfl
    by_cases hClose : token.kind = .closeParen
    · rw [verdict_closed depth rest hClose, hSpells.eq_singleton (c := ')') (by rw [hClose]; rfl)]
      show _ ↔ (if depth = 0 then none else Text.depthBehind? (depth - 1) (stringify rest)) = _
      split
      · simp
      · exact ih h.rest
    by_cases hEquals : token.kind = .equals
    · rw [verdict_equals depth rest hEquals, hSpells.eq_singleton (c := '=') (by rw [hEquals]; rfl)]
      show _ ↔ (if depth = 0 then none else Text.depthBehind? depth (stringify rest)) = _
      split
      · simp
      · exact ih h.rest
    rw [verdict_other depth rest hOpen hClose hEquals, ih h.rest, Text.depthBehind?_append]
    · exact fun hMem => hOpen (hSpells.eq_of_mem_operator rfl (by decide) (by decide) hMem).1
    · exact fun hMem => hClose (hSpells.eq_of_mem_operator rfl (by decide) (by decide) hMem).1
    · exact fun hMem => hEquals (hSpells.eq_of_mem_operator rfl (by decide) (by decide) hMem).1

theorem lines_stringify {tokens : List Token} {lines : List Line} (hCuts : Cuts tokens lines)
    (h : AllLexical tokens) :
    Text.lines (stringify tokens) = lines.map fun line => stringify line.tokens := by
  have hNone {line : List Token} (hLexical : AllLexical line)
      (hLine : ∀ token ∈ line, token.kind ≠ .newline) : '\n' ∉ stringify line := by
    intro hMem
    obtain ⟨token, hToken, hMem⟩ := List.mem_flatMap.mp hMem
    exact (hLexical token hToken).spells.not_mem_newline (hLine token hToken) hMem
  induction hCuts with
  | last hTokens => exact Text.lines_of_not_mem (hNone h hTokens)
  | @more tokens rest newline lines hTokens hNewline _ ih =>
    rw [stringify_append, stringify_cons, h.right.first.text_of_newline hNewline,
      List.singleton_append, Text.lines_append_newline,
      Text.lines_of_not_mem (hNone h.left hTokens), ih h.right.rest]
    rfl

theorem nil_not_mem_lines_iff {tokens : List Token} {lines : List Line} (hCuts : Cuts tokens lines)
    (h : AllLexical tokens) :
    [] ∉ Text.lines (stringify tokens) ↔ ∀ line ∈ lines, line.tokens ≠ [] := by
  rw [lines_stringify hCuts h]
  constructor
  · intro hNone line hLine hEmpty
    exact hNone (List.mem_map.mpr ⟨line, hLine, by rw [hEmpty]; rfl⟩)
  · intro hSome hMem
    obtain ⟨line, hLine, hEmpty⟩ := List.mem_map.mp hMem
    have hTokens := (hCuts.proper h line hLine).tokens
    have hTexts : ∀ token ∈ line.tokens, token.text ≠ [] :=
      fun token hToken => (hTokens token hToken).spells.text_ne_nil
    exact stringify_ne_nil hTexts (hSome line hLine) hEmpty

end Token

/-! ## Tokens of a paragraph -/

/-- Tokens that are prose in lines none of which is empty. -/
structure IsProse (tokens : List Token) : Prop where
  prose : ∃ after, verdict 0 tokens = .prose after
  lines : [] ∉ Text.lines (Token.stringify tokens)

theorem IsProse.of_stringify {a b : List Token} (h : IsProse a) (ha : Token.AllLexical a)
    (hb : Token.AllLexical b) (hSame : Token.stringify b = Token.stringify a) : IsProse b := by
  obtain ⟨⟨after, hProse⟩, hLines⟩ := h
  refine ⟨⟨after, ?_⟩, hSame ▸ hLines⟩
  rw [Token.verdict_eq_prose_iff hb, hSame]
  exact (Token.verdict_eq_prose_iff ha).mp hProse

/-! ## Reading prose -/

theorem Cuts.ne_nil {tokens : List Token} {lines : List Line} (h : Cuts tokens lines) :
    lines ≠ [] := by
  cases h <;> simp

theorem Cuts.join_eq {tokens : List Token} {lines : List Line} (h : Cuts tokens lines) :
    join lines = tokens := by
  induction h with
  | last _ => rfl
  | more _ _ hRest ih =>
    rw [join_cons_of_ne_nil hRest.ne_nil, ih, List.append_assoc]
    rfl

theorem readLines_of_verdict {tokens : List Token} {lines : List Line} (hCuts : Cuts tokens lines)
    {depth after : Nat} (h : verdict depth tokens = .prose after) :
    readLines depth lines = .ok (lines.map fun line => ⟨line, none⟩) := by
  induction hCuts generalizing depth with
  | last _ =>
    rw [readLines, h]
    rfl
  | more _ hNewline _ ih =>
    obtain ⟨between, hLine, hRest⟩ := exists_verdict_of_append h
    rw [verdict_newline hNewline] at hRest
    rw [readLines, hLine]
    dsimp only
    rw [ih hRest]
    rfl

theorem segments_of_ne_nil {lines : List Line} (hSome : lines ≠ [])
    (h : ∀ line ∈ lines, line.tokens ≠ []) :
    segments (lines.map fun line => ⟨line, none⟩) = [.prose lines] := by
  obtain ⟨line, rest, rfl⟩ := List.exists_cons_of_ne_nil hSome
  obtain ⟨hLine, hRest⟩ := List.forall_mem_cons.mp h
  have hText : ∀ passage ∈ rest.map fun line => Passage.mk line none, passage.isText := by
    intro passage hPassage
    obtain ⟨line, hMem, rfl⟩ := List.mem_map.mp hPassage
    exact isText_of_ne_nil (hRest line hMem)
  rw [List.map_cons, segments_text hLine, List.takeWhile_eq_self_iff.mpr hText,
    List.dropWhile_eq_nil_iff.mpr hText, segments_nil, List.map_map]
  exact congrArg (fun lines => [Segment.prose (line :: lines)]) (List.map_id rest)

theorem IsProse.parse {t : Text} (h : IsProse (tokenize t)) :
    Document.parse t = .ok ⟨[.paragraph (Text.trim (Token.content (tokenize t)))]⟩ := by
  have hLexical := Token.lexical_tokenize t
  have hCuts := cuts_cut (tokenize t)
  obtain ⟨⟨after, hProse⟩, hLines⟩ := h
  have hSome := (Token.nil_not_mem_lines_iff hCuts hLexical).mp hLines
  rw [Document.parse_eq_map_readLines, readLines_of_verdict hCuts hProse]
  show Except.ok (Document.ofPassages _) = _
  rw [Document.ofPassages, segments_of_ne_nil hCuts.ne_nil hSome, List.map_singleton, Segment.block,
    hCuts.join_eq]

/-! ## The content of a paragraph -/

section Content

variable {tokens : List Token}

theorem IsProse.ends (h : IsProse tokens) (hLexical : Token.AllLexical tokens) :
    (∀ token ∈ tokens.head?, token.kind ≠ .newline) ∧
      ∀ token ∈ tokens.getLast?, token.kind ≠ .newline := by
  have hLines := h.lines
  constructor
  · rintro token hToken hNewline
    obtain ⟨rest, rfl⟩ := List.head?_eq_some_iff.mp hToken
    apply hLines
    rw [Token.stringify_cons, hLexical.first.text_of_newline hNewline]
    show [] ∈ Text.lines ([] ++ '\n' :: Token.stringify rest)
    rw [Text.lines_append_newline]
    exact List.mem_append_left _ (List.mem_singleton_self _)
  · rintro token hToken hNewline
    obtain ⟨front, rfl⟩ := List.getLast?_eq_some_iff.mp hToken
    apply hLines
    rw [Token.stringify_append, Token.stringify_cons,
      hLexical.right.first.text_of_newline hNewline, List.singleton_append,
      Text.lines_append_newline]
    exact List.mem_append_right _ (List.mem_singleton_self _)

/-- Trimming takes away only the blanks in front of the first token. -/
theorem IsProse.exists_trim_content (h : IsProse tokens) (hLexical : Token.AllLexical tokens) :
    ∃ others, Token.AllLexical others ∧ IsProse others ∧
      Text.trim (Token.content tokens) = Token.content others := by
  cases tokens with
  | nil => exact absurd (List.mem_singleton_self _) h.lines
  | cons first rest =>
    have hSpells := hLexical.first.spells
    have hOthers : Token.AllLexical ({ first with space := [] } :: rest) :=
      List.forall_mem_cons.mpr ⟨⟨hSpells, by simp⟩, hLexical.rest⟩
    have hProse := h.of_stringify hLexical hOthers rfl
    obtain ⟨hHead, hLast⟩ := hProse.ends hOthers
    have hFirst : first.kind ≠ .newline := hHead { first with space := [] } rfl
    refine ⟨_, hOthers, hProse, ?_⟩
    have hSpace : ∀ c ∈ first.space, Text.isSpace c :=
      fun c hc => Token.isSpace_of_isBlank (hLexical.first.space c hc)
    have hContent : Token.content (first :: rest) =
        first.space ++ Token.content ({ first with space := [] } :: rest) :=
      List.append_assoc ..
    rw [hContent, Text.trim_append_left hSpace]
    apply Text.trim_eq_self
    · intro c hc
      rw [Token.content_cons, List.nil_append,
        List.head?_append_of_ne_nil _ hSpells.text_ne_nil] at hc
      exact hSpells.not_isSpace hFirst c (List.mem_of_mem_head? hc)
    · exact Token.not_isSpace_getLast? hOthers hLast

/-- What prose was read from is read in the same way when it is put together. -/
theorem IsProse.trim_content_fixed (h : IsProse tokens) (hLexical : Token.AllLexical tokens)
    {p : Text} (hp : p = Text.trim (Token.content tokens)) :
    Token.content (tokenize p) = p ∧ Document.parse p = .ok ⟨[.paragraph p]⟩ := by
  obtain ⟨others, hOthers, hProse, hContent⟩ := h.exists_trim_content hLexical
  have hAgain : Token.content (tokenize p) = p := by
    rw [hp, hContent, Token.content_tokenize_content hOthers]
  have hTexts : Token.stringify (tokenize p) = Token.stringify others := by
    rw [← Token.filter_content (Token.lexical_tokenize p), hAgain, hp, hContent,
      Token.filter_content hOthers]
  have hRead := (hProse.of_stringify hOthers (Token.lexical_tokenize p) hTexts).parse
  rw [hAgain] at hRead
  refine ⟨hAgain, ?_⟩
  rw [hRead, hp, Text.trim_trim]

end Content

/-! ## The paragraphs of a document -/

section Segments

variable {depth : Nat} {tokens : List Token}

/-- A run of lines, cut out of the lines of some tokens. -/
theorem Cuts.exists_front {a b : List Line} (h : Cuts tokens (a ++ b)) (hSome : a ≠ []) :
    ∃ lines, Cuts (join a) lines ∧ lines.map Line.tokens = a.map Line.tokens := by
  induction a generalizing tokens with
  | nil => exact absurd rfl hSome
  | cons line a ih =>
    rw [List.cons_append] at h
    generalize hLines : a ++ b = rest at h
    cases h with
    | last hTokens =>
      obtain ⟨rfl, rfl⟩ := List.append_eq_nil_iff.mp hLines
      exact ⟨_, .last hTokens, rfl⟩
    | more hTokens hNewline hRest =>
      subst hLines
      by_cases hNone : a = []
      · subst hNone
        exact ⟨_, .last hTokens, rfl⟩
      · obtain ⟨lines, hCuts, hSame⟩ := ih hRest hNone
        rw [join_cons_of_ne_nil hNone, List.append_assoc]
        exact ⟨_, .more hTokens hNewline hCuts, by rw [List.map_cons, List.map_cons, hSame]⟩

theorem Cuts.exists_back {a b : List Line} (h : Cuts tokens (a ++ b)) (hSome : b ≠ []) :
    ∃ rest, Cuts rest b := by
  induction a generalizing tokens with
  | nil => exact ⟨tokens, h⟩
  | cons line a ih =>
    rw [List.cons_append] at h
    generalize hLines : a ++ b = rest at h
    cases h with
    | last _ => exact absurd (List.append_eq_nil_iff.mp hLines).2 hSome
    | more _ _ hRest => exact ih (hLines ▸ hRest)

/-- Of lines none of which is empty none becomes empty when they are taken out. -/
theorem Cuts.nil_not_mem_lines_join {a b c : List Line} (h : Cuts tokens (a ++ (b ++ c)))
    (hSome : b ≠ []) (hLexical : Token.AllLexical (join b))
    (hTokens : ∀ line ∈ b, line.tokens ≠ []) : [] ∉ Text.lines (Token.stringify (join b)) := by
  obtain ⟨rest, hRest⟩ := h.exists_back (List.append_ne_nil_of_left_ne_nil hSome _)
  obtain ⟨lines, hCuts, hSame⟩ := hRest.exists_front hSome
  rw [Token.nil_not_mem_lines_iff hCuts hLexical]
  intro line hLine hEmpty
  have hMem : [] ∈ b.map Line.tokens := by
    rw [← hSame, ← hEmpty]
    exact List.mem_map_of_mem hLine
  obtain ⟨other, hOther, hNone⟩ := List.mem_map.mp hMem
  exact hTokens other hOther hNone

theorem readLines_cons_prose {line : Line} {lines : List Line} {rest : List Passage}
    (h : readLines depth (line :: lines) = .ok (⟨line, none⟩ :: rest)) :
    ∃ after, verdict depth line.tokens = .prose after ∧ readLines after lines = .ok rest := by
  rw [readLines] at h
  split at h
  · cases h
  · obtain ⟨e, _, h⟩ := Expr.exists_of_bind_eq_ok h
    obtain ⟨later, _, h⟩ := Expr.exists_of_bind_eq_ok h
    cases h
  · rename_i after hVerdict
    obtain ⟨later, hLater, h⟩ := Expr.exists_of_bind_eq_ok h
    cases h
    exact ⟨after, hVerdict, hLater⟩

theorem exists_verdict_join {run : List Passage} (hProse : ∀ passage ∈ run, passage.equation = none)
    (hProper : ∀ passage ∈ run, passage.line.Proper)
    (h : readLines depth (run.map Passage.line) = .ok run) :
    ∃ after, verdict depth (join (run.map Passage.line)) = .prose after := by
  induction run generalizing depth with
  | nil => exact ⟨depth, rfl⟩
  | cons passage rest ih =>
    obtain ⟨hFirst, hOthers⟩ := List.forall_mem_cons.mp hProse
    obtain ⟨hLine, hLines⟩ := List.forall_mem_cons.mp hProper
    obtain ⟨line, _⟩ := passage
    obtain rfl : _ = none := hFirst
    obtain ⟨between, hVerdict, hRest⟩ := readLines_cons_prose h
    obtain ⟨after, hJoin⟩ := ih hOthers hLines hRest
    by_cases hNone : rest.map Passage.line = []
    · rw [List.map_cons, hNone]
      exact ⟨between, hVerdict⟩
    · refine ⟨after, ?_⟩
      rw [List.map_cons, join_cons_of_ne_nil hNone, List.append_assoc, verdict_append hVerdict]
      cases hEnding : line.ending with
      | none => exact hJoin
      | some newline => exact (verdict_newline (hLine.ending newline hEnding).2 _ _).trans hJoin

/-- Passages are read behind others at the depth that these leave. -/
theorem readLines_append_eq_ok {a b : List Passage}
    (h : readLines depth ((a ++ b).map Passage.line) = .ok (a ++ b)) :
    readLines depth (a.map Passage.line) = .ok a ∧
      readLines (depth + proseNesting a).toNat (b.map Passage.line) = .ok b := by
  rw [List.map_append, readLines_append] at h
  obtain ⟨front, hFront, h⟩ := Expr.exists_of_bind_eq_ok h
  obtain ⟨back, hBack, h⟩ := Expr.exists_of_bind_eq_ok h
  have hLength : front.length = a.length := by
    have := congrArg List.length (readLines_lines hFront)
    rwa [List.length_map, List.length_map] at this
  obtain ⟨rfl, rfl⟩ := List.append_inj (Except.ok.inj h) hLength
  exact ⟨hFront, hBack⟩

/-- A paragraph is a run of lines, and the lines in front of it make the blocks in front of it. -/
theorem exists_of_mem_segments {passages : List Passage} {lines : List Line}
    (h : .prose lines ∈ segments passages) :
    ∃ front run back, passages = front ++ (run ++ back) ∧ run ≠ [] ∧
      lines = run.map Passage.line ∧ (∀ passage ∈ run, passage.isText) ∧
      ∀ segment ∈ segments front, segment ∈ segments passages := by
  fun_induction segments passages with
  | case1 => cases h
  | case2 passage rest e he ih =>
    obtain ⟨line, _⟩ := passage
    subst he
    have hRest : .prose lines ∈ segments rest := by simpa using h
    obtain ⟨front, run, back, hPassages, hRun, hLines, hText, hFront⟩ := ih hRest
    refine ⟨⟨line, some e⟩ :: front, run, back, by rw [hPassages]; rfl, hRun, hLines, hText, ?_⟩
    rw [segments_equation]
    exact List.forall_mem_cons.mpr
      ⟨List.mem_cons_self, fun segment hSegment => List.mem_cons_of_mem _ (hFront segment hSegment)⟩
  | case3 passage rest he hBlank ih =>
    obtain ⟨line, _⟩ := passage
    subst he
    obtain ⟨front, run, back, hPassages, hRun, hLines, hText, hFront⟩ := ih h
    refine ⟨⟨line, none⟩ :: front, run, back, by rw [hPassages]; rfl, hRun, hLines, hText, ?_⟩
    rwa [segments_blank (by simpa using hBlank)]
  | case4 passage rest he hSome ih =>
    obtain ⟨line, _⟩ := passage
    subst he
    have hLine : line.tokens ≠ [] := by simpa using hSome
    rcases List.mem_cons.mp h with hFirst | hRest
    · refine ⟨[], ⟨line, none⟩ :: rest.takeWhile Passage.isText, rest.dropWhile Passage.isText, ?_,
        List.cons_ne_nil _ _, by cases hFirst; rfl, ?_, by simp [segments_nil]⟩
      · rw [List.nil_append, List.cons_append, List.takeWhile_append_dropWhile]
      · exact List.forall_mem_cons.mpr
          ⟨isText_of_ne_nil hLine, fun _ hPassage => List.mem_takeWhile_imp hPassage⟩
    · obtain ⟨front, run, back, hPassages, hRun, hLines, hText, hFront⟩ := ih hRest
      refine ⟨⟨line, none⟩ :: rest.takeWhile Passage.isText ++ front, run, back, ?_, hRun, hLines,
        hText, ?_⟩
      · rw [List.cons_append, List.cons_append, List.append_assoc, ← hPassages,
          List.takeWhile_append_dropWhile]
      · have hStop : ∀ passage ∈ front.head?, passage.isText = false := by
          intro passage hPassage
          have hHead : passage ∈ (rest.dropWhile Passage.isText).head? := by
            rw [hPassages, List.head?_append, hPassage]
            rfl
          have := List.head?_dropWhile_not Passage.isText rest
          rw [hHead] at this
          exact this
        rw [List.cons_append, segments_text hLine, Text.takeWhile_append_stop hStop,
          Text.dropWhile_append_stop hStop, List.takeWhile_idem,
          List.dropWhile_eq_nil_iff.mpr fun _ hPassage => List.mem_takeWhile_imp hPassage]
        exact List.forall_mem_cons.mpr ⟨List.mem_cons_self,
          fun segment hSegment => List.mem_cons_of_mem _ (hFront segment hSegment)⟩

theorem Document.parens_prose {d : Document}
    (h : ∀ p, .paragraph p ∈ d.blocks → Text.parens p = 0) : Text.parens d.prose = 0 := by
  obtain ⟨blocks⟩ := d
  induction blocks with
  | nil => rfl
  | cons block blocks ih =>
    have hBlocks := ih fun p hp => h p (List.mem_cons_of_mem _ hp)
    have hBlock : Text.parens block.prose = 0 := by
      cases block with
      | paragraph p => exact h p List.mem_cons_self
      | _ => rfl
    show Text.parens (block.prose ++ Document.prose ⟨blocks⟩) = 0
    rw [Text.parens_append, hBlock, hBlocks]
    rfl

theorem isProse_of_mem_segments (hLexical : Token.AllLexical tokens) {passages : List Passage}
    (hCuts : Cuts tokens (passages.map Passage.line))
    (hRead : readLines 0 (passages.map Passage.line) = .ok passages)
    (hBalanced : ∀ p, .paragraph p ∈ (Document.ofPassages passages).blocks → Text.parens p = 0)
    {lines : List Line} (h : .prose lines ∈ segments passages) : IsProse (join lines) := by
  obtain ⟨front, run, back, rfl, hRun, rfl, hText, hFront⟩ := exists_of_mem_segments h
  have hProper : ∀ passage ∈ front ++ (run ++ back), passage.line.Proper :=
    fun passage hPassage => hCuts.proper hLexical _ (List.mem_map_of_mem hPassage)
  have hInRun : ∀ passage ∈ run, passage.line.Proper :=
    fun passage hPassage => hProper passage (by simp [hPassage])
  have hJoin : Token.AllLexical (join (run.map Passage.line)) :=
    lexical_join (List.forall_mem_map.mpr hInRun)
  constructor
  · -- the paragraphs in front close all their parentheses, so the run starts outside of any
    have hNesting : proseNesting front = 0 := by
      rw [← parens_ofPassages fun passage hPassage => hProper passage (by simp [hPassage])]
      apply Document.parens_prose
      intro p hp
      obtain ⟨segment, hSegment, hBlock⟩ := List.mem_map.mp hp
      exact hBalanced p (List.mem_map.mpr ⟨segment, hFront segment hSegment, hBlock⟩)
    obtain ⟨_, hBehind⟩ := readLines_append_eq_ok hRead
    rw [hNesting] at hBehind
    obtain ⟨hRead, _⟩ := readLines_append_eq_ok hBehind
    refine exists_verdict_join ?_ hInRun hRead
    intro passage hPassage
    exact Option.isNone_iff_eq_none.mp (Bool.and_eq_true_iff.mp (hText passage hPassage)).1
  · rw [List.map_append, List.map_append] at hCuts
    refine hCuts.nil_not_mem_lines_join (by simpa using hRun) hJoin ?_
    rw [List.forall_mem_map]
    intro passage hPassage
    simpa using (Bool.and_eq_true_iff.mp (hText passage hPassage)).2

end Segments

namespace Document

/-- Read again on its own, a paragraph of a document is the only block, if the paragraphs of the
document close their parentheses. -/
theorem parse_paragraph (t : Text) (d : Document) (h : parse t = .ok d)
    (hBalanced : ∀ p, .paragraph p ∈ d.blocks → p.count '(' = p.count ')') (p : Text)
    (hp : .paragraph p ∈ d.blocks) :
    Token.content (tokenize p) = p ∧ parse p = .ok ⟨[.paragraph p]⟩ := by
  have hLexical := Token.lexical_tokenize t
  obtain ⟨passages, hRead, rfl⟩ := exists_passages_of_parse h
  have hLines := readLines_lines hRead
  have hCuts : Cuts (tokenize t) (passages.map Passage.line) := hLines ▸ cuts_cut (tokenize t)
  have hParens : ∀ p, .paragraph p ∈ (ofPassages passages).blocks → Text.parens p = 0 := by
    intro p hp
    have hCount := hBalanced p hp
    rw [Text.parens]
    omega
  obtain ⟨segment, hSegment, hBlock⟩ := List.mem_map.mp hp
  cases segment with
  | equation e => cases hBlock
  | prose lines =>
    have hProse := isProse_of_mem_segments hLexical hCuts (hLines.symm ▸ hRead) hParens hSegment
    refine hProse.trim_content_fixed (lexical_join ?_) (Block.paragraph.inj hBlock).symm
    intro line hLine
    obtain ⟨passage, hPassage, rfl⟩ := isOf_of_mem_segments hSegment line hLine
    exact proper_of_readLines hLexical hRead passage hPassage

/-- The names `a` and `b` grow together, and the equals sign stays inside the parentheses. -/
theorem parse_paragraph_glued :
    parse "y=1\n\n(a§b\n=c) d".toList = .ok ⟨[.equation ⟨.identifier ['y'], .identifier ['1']⟩,
        .paragraph "(ab\n=c) d".toList]⟩ ∧
      Token.content (tokenize "(ab\n=c) d".toList) = "(ab\n=c) d".toList ∧
      parse "(ab\n=c) d".toList = .ok ⟨[.paragraph "(ab\n=c) d".toList]⟩ := by
  have hEquation :
      parse "y=1".toList = .ok ⟨[.equation ⟨.identifier ['y'], .identifier ['1']⟩]⟩ := by
    rw [parse_eq_map_readLines]
    cbv
  have hProse : IsProse (tokenize "(a§b\n=c) d".toList) :=
    ⟨⟨0, (Token.verdict_eq_prose_iff (Token.lexical_tokenize _)).mpr (by decide +kernel)⟩,
      by decide +kernel⟩
  have hContent :
      Text.trim (Token.content (tokenize "(a§b\n=c) d".toList)) = "(ab\n=c) d".toList := by
    decide +kernel
  have hText : "y=1\n\n(a§b\n=c) d".toList =
      "y=1".toList ++ '\n' :: '\n' :: "(a§b\n=c) d".toList := by decide
  have hRead : parse "y=1\n\n(a§b\n=c) d".toList =
      .ok ⟨[.equation ⟨.identifier ['y'], .identifier ['1']⟩, .paragraph "(ab\n=c) d".toList]⟩ := by
    rcases parse_blank_line_cases "y=1".toList "(a§b\n=c) d".toList with
      ⟨e, hError, _⟩ | ⟨d, hOk, hBoth⟩
    · cases hEquation.symm.trans hError
    · cases hEquation.symm.trans hOk
      rw [hProse.parse, hContent] at hBoth
      rw [hText]
      exact hBoth rfl
  refine ⟨hRead, parse_paragraph _ _ hRead ?_ _ (by simp)⟩
  intro p hp
  obtain rfl : p = "(ab\n=c) d".toList := by simpa using hp
  rfl

end Document

end ProseMath
