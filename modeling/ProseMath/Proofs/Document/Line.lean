import Mathlib.Data.List.Basic
import Mathlib.Data.List.TakeWhile
import Mathlib.Tactic.Common
import ProseMath.Document.Parser
import ProseMath.Proofs.Expr.Grammar
import ProseMath.Proofs.Text.Trim
import ProseMath.Proofs.Token.Spelling

/-!
# Documents line by line

A reading of documents that collects nothing and takes nothing back: the tokens are cut into lines
(`Line.cut`), every line is judged by itself (`Line.verdict`) and read (`readLines`), and the
longest runs of non-empty lines of prose become the paragraphs (`segments`).

* `cuts_cut`: lines are cut at the newlines.
* `Cuts.proper`: the lines of a scan are made of scanned tokens.
* `readLines_lines`: every line is kept.
* `draft_of_mem_segments`: no run of lines is blank.
-/

namespace ProseMath

/-! ## Lines -/

/-- A line, with the newline that ends it unless it is the last one. -/
structure Line where
  tokens : List Token
  ending : Option Token

namespace Line

/-- The lines of a token list; there is always at least one. -/
def cut : List Token → List Line
  | [] => [⟨[], none⟩]
  | token :: rest =>
    if token.kind = .newline then ⟨[], some token⟩ :: cut rest
    else match cut rest with
      | [] => []
      | line :: lines => ⟨token :: line.tokens, line.ending⟩ :: lines

/-- Lines put together again, without the newline that ends the last one. -/
def join : List Line → List Token
  | [] => []
  | [line] => line.tokens
  | line :: next :: rest => line.tokens ++ line.ending.toList ++ join (next :: rest)

/-- What a line is. -/
inductive Verdict where
  /-- A parenthesis closes that none opens. -/
  | closes (token : Token)
  | equation
  /-- Prose that leaves some parentheses open. -/
  | prose (depth : Nat)

/-- What a line is that stands inside `depth` parentheses: the first closing parenthesis or equals
sign at depth zero decides. -/
def verdict (depth : Nat) : List Token → Verdict
  | [] => .prose depth
  | token :: rest =>
    match token.kind with
    | .openParen => verdict (depth + 1) rest
    | .closeParen => if depth = 0 then .closes token else verdict (depth - 1) rest
    | .equals => if depth = 0 then .equation else verdict depth rest
    | _ => verdict depth rest

end Line

/-! ## Reading -/

/-- A line that was read, with its equation if it is one. -/
structure Passage where
  line : Line
  equation : Option Equation

/-- A non-empty line of prose. -/
def Passage.isText (passage : Passage) : Bool :=
  passage.equation.isNone && !passage.line.tokens.isEmpty

/-- Reads lines that stand inside `depth` parentheses. The parentheses of an equation do not
count for the lines behind it. -/
def readLines (depth : Nat) : List Line → Except SyntaxError (List Passage)
  | [] => .ok []
  | line :: rest =>
    match Line.verdict depth line.tokens with
    | .closes token => .error ⟨.unexpectedClose, some token.offset⟩
    | .equation => do
      let equation ← Equation.parse line.tokens
      let passages ← readLines depth rest
      return ⟨line, some equation⟩ :: passages
    | .prose after => do
      let passages ← readLines after rest
      return ⟨line, none⟩ :: passages

/-- The lines of a block. -/
inductive Segment where
  | equation (equation : Equation)
  | prose (lines : List Line)

def Segment.block : Segment → Block
  | .equation e => .equation e
  | .prose lines => .paragraph (Text.trim (Token.content (Line.join lines)))

/-- The equations and the longest runs of non-empty lines of prose. -/
def segments : List Passage → List Segment
  | [] => []
  | passage :: rest =>
    match passage.equation with
    | some e => .equation e :: segments rest
    | none =>
      if passage.line.tokens.isEmpty then segments rest
      else
        .prose (passage.line :: (rest.takeWhile Passage.isText).map Passage.line) ::
          segments (rest.dropWhile Passage.isText)
termination_by passages => passages.length
decreasing_by
  · simp
  · simp
  · have := (List.dropWhile_sublist Passage.isText (l := rest)).length_le
    simp only [List.length_cons]
    omega

/-- The document of some lines. -/
def Document.ofLines (lines : List Line) : Except SyntaxError Document :=
  (readLines 0 lines).map fun passages => ⟨(segments passages).map Segment.block⟩

/-! ## Where lines are cut -/

/-- The lines of a token list, each without a newline inside. -/
inductive Cuts : List Token → List Line → Prop
  | last {tokens : List Token} (hTokens : ∀ token ∈ tokens, token.kind ≠ .newline) :
    Cuts tokens [⟨tokens, none⟩]
  | more {tokens rest : List Token} {newline : Token} {lines : List Line}
    (hTokens : ∀ token ∈ tokens, token.kind ≠ .newline) (hNewline : newline.kind = .newline)
    (hRest : Cuts rest lines) : Cuts (tokens ++ newline :: rest) (⟨tokens, some newline⟩ :: lines)

theorem cuts_cut (tokens : List Token) : Cuts tokens (Line.cut tokens) := by
  induction tokens with
  | nil => exact .last (by simp)
  | cons token rest ih =>
    rw [Line.cut]
    by_cases hNewline : token.kind = .newline
    · rw [if_pos hNewline]
      exact @Cuts.more [] rest token _ (by simp) hNewline ih
    · rw [if_neg hNewline]
      generalize Line.cut rest = lines at ih
      cases ih with
      | last hTokens => exact .last (by simpa [hNewline] using hTokens)
      | @more tokens _ _ _ hTokens hEnding hRest =>
        exact @Cuts.more (token :: tokens) _ _ _ (by simpa [hNewline] using hTokens) hEnding hRest

/-- Either the first line is empty and ended by a newline, or the tokens do not start with one. -/
theorem Cuts.blank_or {tokens : List Token} {lines : List Line} (h : Cuts tokens lines) :
    (∃ newline rest later, tokens = newline :: rest ∧ newline.kind = .newline ∧
        lines = ⟨[], some newline⟩ :: later ∧ Cuts rest later) ∨
      (∀ token ∈ tokens.head?, token.kind ≠ .newline) ∧
        ∀ newline later, lines ≠ ⟨[], some newline⟩ :: later := by
  cases h with
  | last hTokens =>
    refine Or.inr ⟨fun token hToken => hTokens token (List.mem_of_mem_head? hToken), ?_⟩
    simp
  | @more tokens rest newline later hTokens hNewline hRest =>
    cases tokens with
    | nil => exact Or.inl ⟨newline, rest, later, rfl, hNewline, rfl, hRest⟩
    | cons first tokens =>
      refine Or.inr ⟨?_, by simp⟩
      intro token hToken
      cases hToken
      exact hTokens first List.mem_cons_self

theorem Cuts.of_mem {tokens : List Token} {lines : List Line} (h : Cuts tokens lines) {line : Line}
    (hLine : line ∈ lines) : ∀ token ∈ line.tokens, token ∈ tokens ∧ token.kind ≠ .newline := by
  intro token hToken
  induction h with
  | last hTokens =>
    obtain rfl := List.mem_singleton.mp hLine
    exact ⟨hToken, hTokens token hToken⟩
  | more hTokens _ _ ih =>
    rcases List.mem_cons.mp hLine with rfl | hLine
    · exact ⟨List.mem_append_left _ hToken, hTokens token hToken⟩
    · obtain ⟨hMem, hKind⟩ := ih hLine
      exact ⟨List.mem_append_right _ (List.mem_cons_of_mem _ hMem), hKind⟩

/-- A line of scanned tokens. -/
structure Line.Proper (line : Line) : Prop where
  tokens : Token.AllLexical line.tokens
  ending : ∀ token ∈ line.ending, token.Lexical ∧ token.kind = .newline

theorem Cuts.proper {tokens : List Token} {lines : List Line} (h : Cuts tokens lines)
    (hLexical : Token.AllLexical tokens) : ∀ line ∈ lines, line.Proper := by
  induction h with
  | last _ =>
    intro line hLine
    rw [List.mem_singleton.mp hLine]
    exact ⟨hLexical, by simp⟩
  | more _ hNewline _ ih =>
    intro line hLine
    rcases List.mem_cons.mp hLine with rfl | hLine
    · refine ⟨hLexical.left, ?_⟩
      intro token hToken
      cases hToken
      exact ⟨hLexical.right.first, hNewline⟩
    · exact ih hLexical.right.rest line hLine

theorem Line.lexical_join {lines : List Line} (h : ∀ line ∈ lines, line.Proper) :
    Token.AllLexical (Line.join lines) := by
  induction lines with
  | nil =>
    intro token hToken
    cases hToken
  | cons line rest ih =>
    obtain ⟨hLine, hRest⟩ := List.forall_mem_cons.mp h
    cases rest with
    | nil => exact hLine.tokens
    | cons next rest =>
      intro token hToken
      rcases List.mem_append.mp hToken with hToken | hToken
      · rcases List.mem_append.mp hToken with hToken | hToken
        · exact hLine.tokens token hToken
        · exact (hLine.ending token (Option.mem_toList.mp hToken)).1
      · exact ih hRest token hToken

theorem readLines_lines {depth : Nat} {lines : List Line} {passages : List Passage}
    (h : readLines depth lines = .ok passages) : passages.map Passage.line = lines := by
  induction lines generalizing depth passages with
  | nil => cases h; rfl
  | cons line rest ih =>
    rw [readLines] at h
    split at h
    · cases h
    · obtain ⟨e, _, h⟩ := Expr.exists_of_bind_eq_ok h
      obtain ⟨later, hLater, h⟩ := Expr.exists_of_bind_eq_ok h
      cases h
      rw [List.map_cons, ih hLater]
    · obtain ⟨later, hLater, h⟩ := Expr.exists_of_bind_eq_ok h
      cases h
      rw [List.map_cons, ih hLater]

theorem proper_of_readLines {tokens : List Token} (hLexical : Token.AllLexical tokens) {depth : Nat}
    {passages : List Passage} (h : readLines depth (Line.cut tokens) = .ok passages) :
    ∀ passage ∈ passages, passage.line.Proper := by
  intro passage hPassage
  apply (cuts_cut tokens).proper hLexical
  rw [← readLines_lines h]
  exact List.mem_map_of_mem hPassage

theorem mem_of_readLines {tokens : List Token} {depth : Nat} {passages : List Passage}
    (h : readLines depth (Line.cut tokens) = .ok passages) :
    ∀ passage ∈ passages, ∀ token ∈ passage.line.tokens,
      token ∈ tokens ∧ token.kind ≠ .newline := by
  intro passage hPassage
  apply (cuts_cut tokens).of_mem
  rw [← readLines_lines h]
  exact List.mem_map_of_mem hPassage

/-! ## White space -/

/-- A token of which trimming leaves nothing. -/
def Token.IsWhite (token : Token) : Prop := ∀ c ∈ token.space ++ token.text, Text.isSpace c

namespace Token

theorem Lexical.isWhite {token : Token} (h : token.Lexical) (hNewline : token.kind = .newline) :
    token.IsWhite := by
  have hText : token.text = ['\n'] := (hNewline ▸ h.spells).eq_newline
  intro c hc
  rw [hText] at hc
  rcases List.mem_append.mp hc with hc | hc
  · exact isSpace_of_isBlank (h.space c hc)
  · rw [List.mem_singleton.mp hc]
    decide

theorem Lexical.not_isWhite {token : Token} (h : token.Lexical) (hNewline : token.kind ≠ .newline) :
    ¬ token.IsWhite := by
  intro hWhite
  obtain ⟨c, hc⟩ := List.exists_mem_of_ne_nil _ h.spells.text_ne_nil
  have hSpace := h.spells.not_isSpace hNewline c hc
  rw [hWhite c (List.mem_append_right _ hc)] at hSpace
  cases hSpace

theorem not_isWhite_of_readLines {tokens : List Token} (hLexical : AllLexical tokens) {depth : Nat}
    {passages : List Passage} (h : readLines depth (Line.cut tokens) = .ok passages) :
    ∀ passage ∈ passages, ∀ token ∈ passage.line.tokens, ¬ token.IsWhite := by
  intro passage hPassage token hToken
  obtain ⟨hMem, hKind⟩ := mem_of_readLines h passage hPassage token hToken
  exact (hLexical token hMem).not_isWhite hKind

theorem isSpace_content {tokens : List Token} (h : ∀ token ∈ tokens, token.IsWhite) :
    ∀ c ∈ content tokens, Text.isSpace c := by
  intro c hc
  obtain ⟨token, hToken, hc⟩ := List.mem_flatMap.mp hc
  exact h token hToken c hc

theorem content_cons (token : Token) (tokens : List Token) :
    content (token :: tokens) = token.space ++ token.text ++ content tokens := rfl

theorem content_append (a b : List Token) : content (a ++ b) = content a ++ content b :=
  List.flatMap_append

theorem not_mem_content {tokens : List Token} (h : AllLexical tokens) : '$' ∉ content tokens := by
  intro hMem
  obtain ⟨token, hToken, hMem⟩ := List.mem_flatMap.mp hMem
  rcases List.mem_append.mp hMem with hSpace | hText
  · exact absurd ((h token hToken).space '$' hSpace) (by decide)
  · exact (h token hToken).spells.not_mem_dollar hText

end Token

/-! ## Paragraphs being collected -/

/-- The block of some tokens, if they are not blank. -/
def paragraph (tokens : List Token) : List Block :=
  let text := Text.trim (Token.content tokens)
  if text.isEmpty then [] else [.paragraph text]

section Paragraph

variable {white tokens : List Token}

theorem paragraph_append_left (h : ∀ token ∈ white, token.IsWhite) :
    paragraph (white ++ tokens) = paragraph tokens := by
  rw [paragraph, Token.content_append, Text.trim_append_left (Token.isSpace_content h)]
  rfl

theorem paragraph_append_right (h : ∀ token ∈ white, token.IsWhite) :
    paragraph (tokens ++ white) = paragraph tokens := by
  rw [paragraph, Token.content_append, Text.trim_append_right _ (Token.isSpace_content h)]
  rfl

theorem paragraph_of_isWhite (h : ∀ token ∈ white, token.IsWhite) : paragraph white = [] := by
  rw [paragraph, Text.trim_eq_nil_iff.mpr (Token.isSpace_content h)]
  rfl

theorem paragraph_of_not_isWhite {token : Token} (hToken : token ∈ tokens)
    (h : ¬ token.IsWhite) : paragraph tokens = [.paragraph (Text.trim (Token.content tokens))] := by
  have hText : Text.trim (Token.content tokens) ≠ [] := by
    intro hEmpty
    apply h
    intro c hc
    exact Text.trim_eq_nil_iff.mp hEmpty c (List.mem_flatMap.mpr ⟨token, hToken, hc⟩)
  rw [paragraph, if_neg (by simpa using hText)]

end Paragraph

/-- The blocks of a segment, where a blank paragraph is left out. -/
def Segment.draft : Segment → List Block
  | .equation e => [.equation e]
  | .prose lines => paragraph (Line.join lines)

/-- The blocks of some passages, where the tokens in `floating` go with the paragraph in front. -/
def pending (floating : List Token) (passages : List Passage) : List Block :=
  paragraph (floating ++ Line.join ((passages.takeWhile Passage.isText).map Passage.line)) ++
    (segments (passages.dropWhile Passage.isText)).flatMap Segment.draft

section Segments

variable {line : Line} {rest : List Passage}

theorem segments_nil : segments [] = [] := by rw [segments]

theorem segments_equation (e : Equation) :
    segments (⟨line, some e⟩ :: rest) = .equation e :: segments rest := by
  rw [segments]

theorem segments_blank (h : line.tokens = []) :
    segments (⟨line, none⟩ :: rest) = segments rest := by
  rw [segments]
  simp only
  rw [if_pos (by simp [h])]

theorem segments_text (h : line.tokens ≠ []) :
    segments (⟨line, none⟩ :: rest) =
      .prose (line :: (rest.takeWhile Passage.isText).map Passage.line) ::
        segments (rest.dropWhile Passage.isText) := by
  rw [segments]
  simp only
  rw [if_neg (by simpa using h)]

end Segments

/-- A segment made of some passages. -/
def Segment.IsOf (passages : List Passage) : Segment → Prop
  | .equation e => ∃ passage ∈ passages, passage.equation = some e
  | .prose lines => ∀ line ∈ lines, ∃ passage ∈ passages, passage.line = line

theorem Segment.IsOf.mono {a b : List Passage} (hSubset : a ⊆ b) {segment : Segment}
    (h : segment.IsOf a) : segment.IsOf b := by
  cases segment with
  | equation e =>
    obtain ⟨passage, hPassage, he⟩ := h
    exact ⟨passage, hSubset hPassage, he⟩
  | prose lines =>
    intro line hLine
    obtain ⟨passage, hPassage, hSame⟩ := h line hLine
    exact ⟨passage, hSubset hPassage, hSame⟩

theorem isOf_of_mem_segments {passages : List Passage} {segment : Segment}
    (h : segment ∈ segments passages) : segment.IsOf passages := by
  fun_induction segments passages with
  | case1 => cases h
  | case2 passage rest e he ih =>
    rcases List.mem_cons.mp h with rfl | h
    · exact ⟨passage, List.mem_cons_self, he⟩
    · exact (ih h).mono (List.subset_cons_self _ _)
  | case3 passage rest _ _ ih => exact (ih h).mono (List.subset_cons_self _ _)
  | case4 passage rest _ _ ih =>
    rcases List.mem_cons.mp h with rfl | h
    · intro line hLine
      rcases List.mem_cons.mp hLine with rfl | hLine
      · exact ⟨passage, List.mem_cons_self, rfl⟩
      · obtain ⟨other, hOther, hSame⟩ := List.mem_map.mp hLine
        exact ⟨other, List.mem_cons_of_mem _ (List.takeWhile_subset _ hOther), hSame⟩
    · refine (ih h).mono ?_
      exact fun other hOther => List.mem_cons_of_mem _ (List.dropWhile_subset _ hOther)

namespace Line

theorem join_cons_of_ne_nil {line : Line} {rest : List Line} (h : rest ≠ []) :
    join (line :: rest) = line.tokens ++ line.ending.toList ++ join rest := by
  cases rest with
  | nil => exact absurd rfl h
  | cons next rest => rfl

theorem mem_join_cons {line : Line} {rest : List Line} {token : Token} (h : token ∈ line.tokens) :
    token ∈ join (line :: rest) := by
  cases rest with
  | nil => exact h
  | cons next rest => exact List.mem_append_left _ (List.mem_append_left _ h)

end Line

/-- A run of lines is never blank, as its first line has a token that is no newline. -/
theorem draft_of_mem_segments {passages : List Passage}
    (h : ∀ passage ∈ passages, ∀ token ∈ passage.line.tokens, ¬ token.IsWhite) {segment : Segment}
    (hSegment : segment ∈ segments passages) : segment.draft = [segment.block] := by
  fun_induction segments passages with
  | case1 => cases hSegment
  | case2 passage rest e he ih =>
    rcases List.mem_cons.mp hSegment with rfl | hSegment
    · rfl
    · exact ih (fun p hp => h p (List.mem_cons_of_mem _ hp)) hSegment
  | case3 passage rest he hBlank ih =>
    exact ih (fun p hp => h p (List.mem_cons_of_mem _ hp)) hSegment
  | case4 passage rest he hText ih =>
    rcases List.mem_cons.mp hSegment with rfl | hSegment
    · have hLine : passage.line.tokens ≠ [] := by simpa using hText
      obtain ⟨token, hToken⟩ := List.exists_mem_of_ne_nil _ hLine
      have hWhite := h passage List.mem_cons_self token hToken
      exact paragraph_of_not_isWhite (Line.mem_join_cons hToken) hWhite
    · exact ih (fun p hp => h p (List.mem_cons_of_mem _ (List.dropWhile_subset _ hp))) hSegment

theorem flatMap_draft_segments {passages : List Passage}
    (h : ∀ passage ∈ passages, ∀ token ∈ passage.line.tokens, ¬ token.IsWhite) :
    (segments passages).flatMap Segment.draft = (segments passages).map Segment.block := by
  rw [List.flatMap_congr fun _ hSegment => draft_of_mem_segments h hSegment, List.map_eq_flatMap]

section Pending

variable {floating : List Token} {line : Line} {rest : List Passage}

theorem isText_of_ne_nil (h : line.tokens ≠ []) : Passage.isText ⟨line, none⟩ := by
  simpa [Passage.isText] using h

theorem not_isText_of_nil (h : line.tokens = []) : Passage.isText ⟨line, none⟩ = false := by
  simp [Passage.isText, h]

theorem pending_of_not_isText {passage : Passage} (h : passage.isText = false) :
    pending floating (passage :: rest) =
      paragraph floating ++ (segments (passage :: rest)).flatMap Segment.draft := by
  have hNone : ¬ passage.isText := by simp [h]
  rw [pending, List.takeWhile_cons_of_neg hNone, List.dropWhile_cons_of_neg hNone, List.map_nil,
    Line.join, List.append_nil]

theorem pending_of_isText {passage : Passage} (h : passage.isText) :
    pending floating (passage :: rest) =
      paragraph (floating ++
        Line.join (passage.line :: (rest.takeWhile Passage.isText).map Passage.line)) ++
        (segments (rest.dropWhile Passage.isText)).flatMap Segment.draft := by
  rw [pending, List.takeWhile_cons_of_pos h, List.dropWhile_cons_of_pos h, List.map_cons]

theorem pending_of_isWhite {passages : List Passage} (h : ∀ token ∈ floating, token.IsWhite) :
    pending floating passages = (segments passages).flatMap Segment.draft := by
  cases passages with
  | nil =>
    rw [pending, paragraph_append_left h]
    rfl
  | cons passage rest =>
    by_cases hText : passage.isText
    · obtain ⟨line, equation⟩ := passage
      obtain ⟨rfl, hLine⟩ : equation = none ∧ line.tokens ≠ [] := by
        simpa [Passage.isText] using hText
      rw [pending_of_isText hText, paragraph_append_left h, segments_text hLine, List.flatMap_cons]
      rfl
    · rw [Bool.not_eq_true] at hText
      rw [pending_of_not_isText hText, paragraph_of_isWhite h, List.nil_append]

theorem pending_equation (e : Equation) :
    pending floating (⟨line, some e⟩ :: rest) =
      paragraph floating ++ .equation e :: (segments rest).flatMap Segment.draft := by
  rw [pending_of_not_isText rfl, segments_equation]
  rfl

/-- A line of prose goes to the tokens being collected. -/
theorem pending_prose (hEnding : ∀ token ∈ line.ending, token.IsWhite)
    (hFloating : line.tokens = [] → ∀ token ∈ floating, token.IsWhite) :
    pending floating (⟨line, none⟩ :: rest) =
      pending (floating ++ line.tokens ++ line.ending.toList) rest := by
  have hWhite : ∀ token ∈ line.ending.toList, token.IsWhite := by simpa using hEnding
  by_cases hBlank : line.tokens = []
  · have hAll : ∀ token ∈ floating ++ line.tokens ++ line.ending.toList, token.IsWhite := by
      intro token hToken
      rw [hBlank, List.append_nil] at hToken
      exact (List.mem_append.mp hToken).elim (hFloating hBlank token) (hWhite token)
    rw [pending_of_isWhite (hFloating hBlank), pending_of_isWhite hAll, segments_blank hBlank]
  · rw [pending_of_isText (isText_of_ne_nil hBlank), pending]
    congr 1
    -- behind the last line of the run there is the newline, and it is trimmed
    by_cases hRun : (rest.takeWhile Passage.isText).map Passage.line = []
    · rw [hRun, Line.join, Line.join, List.append_nil, paragraph_append_right hWhite]
    · rw [Line.join_cons_of_ne_nil hRun, List.append_assoc, List.append_assoc, List.append_assoc]

/-- An empty line behind a line of prose ends the paragraph. -/
theorem pending_prose_blank {blank : Line} (hBlank : blank.tokens = [])
    (hFloating : line.tokens = [] → ∀ token ∈ floating, token.IsWhite) :
    pending floating (⟨line, none⟩ :: ⟨blank, none⟩ :: rest) =
      paragraph (floating ++ line.tokens) ++ (segments rest).flatMap Segment.draft := by
  by_cases hLine : line.tokens = []
  · rw [pending_of_isWhite (hFloating hLine), segments_blank hLine, segments_blank hBlank, hLine,
      List.append_nil, paragraph_of_isWhite (hFloating hLine), List.nil_append]
  · have hNone : ¬ Passage.isText ⟨blank, none⟩ := by simp [not_isText_of_nil hBlank]
    rw [pending_of_isText (isText_of_ne_nil hLine), List.takeWhile_cons_of_neg hNone,
      List.dropWhile_cons_of_neg hNone, segments_blank hBlank]
    rfl

theorem pending_last : pending floating [⟨line, none⟩] = paragraph (floating ++ line.tokens) := by
  by_cases hLine : line.tokens = []
  · rw [pending_of_not_isText (not_isText_of_nil hLine), segments_blank hLine, segments_nil, hLine,
      List.append_nil]
    exact List.append_nil _
  · rw [pending_of_isText (isText_of_ne_nil hLine), List.takeWhile_nil, List.dropWhile_nil,
      segments_nil]
    exact List.append_nil _

end Pending

end ProseMath
