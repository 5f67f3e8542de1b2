import Mathlib.Data.List.Permutation
import Mathlib.Tactic.Common
import ProseMath.Proofs.Document.Recast
import ProseMath.Proofs.Latex.Body
import ProseMath.Proofs.Latex.Paragraph
import ProseMath.Proofs.Token.Seam

/-!
# Documents with blanks at the ends of lines

Blanks at the end of a line become the space in front of its newline, shift the tokens behind them,
and can make a multiplication sign of a name `x` in front of them. The core of a token has none of
this, so it stays the same, and a document is written from the cores of its tokens.

* `map_core_tokenize`: blanks at the ends of lines do not change the cores.
* `block_core`: blocks are written from cores.
* `Document.parse_of_padded`: blanks at the ends of lines do not matter.
-/

namespace ProseMath

open Line Text

/-! ## Cores -/

namespace Token

/-- A token without its place, and a newline without its space. -/
def unplaced (token : Token) : Token :=
  { token with offset := 0, space := if token.kind = .newline then [] else token.space }

/-- What blanks at the ends of lines cannot change about a token. -/
def core (token : Token) : Token := unplaced (timesAsName token)

theorem core_eq (token : Token) :
    core token = ⟨if token.kind = .multiply ∧ token.text = ['x'] then .identifier else token.kind,
      token.text, 0, if token.kind = .newline then [] else token.space⟩ := by
  by_cases hTimes : token.kind = .multiply ∧ token.text = ['x']
  · have hLine : token.kind ≠ .newline := by simp [hTimes.1]
    rw [core, timesAsName, if_pos hTimes, if_pos hTimes, if_neg hLine]
    rfl
  · rw [core, timesAsName, if_neg hTimes, if_neg hTimes]
    rfl

theorem recast_core : Recast core fun _ => 0 where
  text token := by rw [core_eq]
  offset _ := rfl
  pivot token := by
    by_cases hTimes : token.kind = .multiply ∧ token.text = ['x']
    · rw [core_eq, if_pos hTimes, Expr.pivot?, Expr.pivot?, hTimes.1, hTimes.2]
      rfl
    · rw [core_eq, if_neg hTimes]
      rfl
  kind kind hKind token := by
    have hOther : ∀ k ∈ Kind.structural, k ≠ .identifier ∧ k ≠ .multiply :=
      List.all_iff_forall_prop.mp (by decide)
    obtain ⟨hName, hSign⟩ := hOther kind hKind
    rw [core_eq]
    dsimp only
    split_ifs with hTimes
    · rw [hTimes.1]
      exact iff_of_false hName.symm hSign.symm
    · exact Iff.rfl

theorem core_shift (distance : Nat) (token : Token) : core (shift distance token) = core token := by
  rw [core_eq, core_eq]
  rfl

theorem core_of_newline {token : Token} (h : token.Lexical) (hNewline : token.kind = .newline) :
    core token = ⟨.newline, ['\n'], 0, []⟩ := by
  have hText : token.text = ['\n'] := (hNewline ▸ h.spells).eq_newline
  rw [core_eq, hNewline, hText]
  rfl

theorem map_core_tokenize_newline (a b : Text) :
    (tokenize (a ++ '\n' :: b)).map core =
      (tokenize a).map core ++ ⟨.newline, ['\n'], 0, []⟩ :: (tokenize b).map core := by
  obtain ⟨newline, hNewline, hTokens⟩ := exists_tokenize_newline a b
  have hLexical := lexical_tokenize (a ++ '\n' :: b)
  rw [hTokens] at hLexical
  have hShift : core ∘ shift (a.length + 1) = core := funext (core_shift _)
  rw [hTokens, List.map_append, List.map_cons, List.map_map, hShift,
    core_of_newline hLexical.right.first hNewline]

theorem map_core_tokenize {t u : Text} (h : Padded t u) :
    (tokenize u).map core = (tokenize t).map core := by
  have hLine (line : Text) {blanks : Text} (hBlanks : ∀ c ∈ blanks, isBlank c) :
      (tokenize (line ++ blanks)).map core = (tokenize line).map core := by
    have hMap := congrArg (List.map unplaced) (map_tokenize_append_blanks line hBlanks)
    rwa [List.map_map, List.map_map] at hMap
  induction h with
  | last line hBlanks => exact hLine line hBlanks
  | newline line hBlanks _ ih =>
    rw [map_core_tokenize_newline, map_core_tokenize_newline, hLine line hBlanks, ih]

/-! ## Contents -/

theorem padded_content_core {tokens : List Token} (h : AllLexical tokens) :
    Padded (content (tokens.map core)) (content tokens) := by
  induction tokens with
  | nil => exact .last [] (by simp)
  | cons token rest ih =>
    have hRest := ih h.rest
    by_cases hNewline : token.kind = .newline
    · have hText : token.text = ['\n'] := (hNewline ▸ h.first.spells).eq_newline
      have hPadded := Padded.newline [] h.first.space hRest
      rw [List.map_cons, core_of_newline h.first hNewline, content_cons, content_cons, hText,
        List.append_assoc token.space]
      exact hPadded
    · have hSpace : (core token).space = token.space := by
        rw [core_eq]
        exact if_neg hNewline
      rw [List.map_cons, content_cons, content_cons, recast_core.text token, hSpace]
      exact hRest.append_left _

end Token

/-! ## Blocks -/

theorem block_core {passages : List Passage} (hProper : ∀ passage ∈ passages, passage.line.Proper)
    {segment : Segment} (hSegment : segment ∈ segments passages) :
    Latex.block segment.block = Latex.block (segment.map Token.core).block := by
  cases segment with
  | equation e => rfl
  | prose lines =>
    have hLines : ∀ line ∈ lines, line.Proper := by
      intro line hLine
      obtain ⟨passage, hPassage, rfl⟩ := isOf_of_mem_segments hSegment line hLine
      exact hProper passage hPassage
    have hLexical := lexical_join hLines
    have hParagraph := Latex.paragraph_of_padded (Token.padded_content_core hLexical)
      (Token.not_mem_content hLexical)
    rw [Segment.map, Segment.block, Segment.block, join_map, Latex.block, Latex.block, hParagraph]

theorem body_core {passages : List Passage} (hProper : ∀ passage ∈ passages, passage.line.Proper) :
    Latex.body (Document.ofPassages passages) =
      Latex.body (Document.ofPassages (passages.map (Passage.map Token.core))) := by
  apply Latex.body_congr
  rw [segments_map, List.map_map, List.map_map, List.map_map]
  exact List.map_congr_left fun segment hSegment => block_core hProper hSegment

namespace Document

/-- Blanks in front of line feeds and at the end of a text do not matter: whether it can be read,
what is written then, and what is wrong otherwise. -/
theorem parse_of_padded (t : Text) :
    Padded t (carriageReturns t) ∧ ∀ u, Padded t u →
      (∃ d e s, parse t = .ok d ∧ parse u = .ok e ∧ Latex.body d = .ok s ∧ Latex.body e = .ok s) ∨
      ∃ e f, parse t = .error e ∧ parse u = .error f ∧ e.fault = f.fault := by
  refine ⟨padded_carriageReturns t, ?_⟩
  intro u hPadded
  have hRead : moved (fun _ => 0)
        ((readLines 0 (cut (tokenize t))).map (List.map (Passage.map Token.core))) =
      moved (fun _ => 0)
        ((readLines 0 (cut (tokenize u))).map (List.map (Passage.map Token.core))) := by
    rw [← readLines_map Token.recast_core, ← readLines_map Token.recast_core,
      ← cut_map Token.recast_core, ← cut_map Token.recast_core, Token.map_core_tokenize hPadded]
  rw [parse_eq_map_readLines t, parse_eq_map_readLines u]
  cases hFirst : readLines 0 (cut (tokenize t)) with
  | error e =>
    cases hSecond : readLines 0 (cut (tokenize u)) with
    | error f =>
      rw [hFirst, hSecond] at hRead
      have hMoved : e.moved (fun _ => 0) = f.moved (fun _ => 0) := Except.error.inj hRead
      have hFault := congrArg SyntaxError.fault hMoved
      exact Or.inr ⟨e, f, rfl, rfl, hFault⟩
    | ok passages =>
      rw [hFirst, hSecond] at hRead
      cases hRead
  | ok passages =>
    cases hSecond : readLines 0 (cut (tokenize u)) with
    | error f =>
      rw [hFirst, hSecond] at hRead
      cases hRead
    | ok others =>
      rw [hFirst, hSecond] at hRead
      have hCores : passages.map (Passage.map Token.core) = others.map (Passage.map Token.core) :=
        Except.ok.inj hRead
      have hBody : Latex.body (ofPassages passages) = Latex.body (ofPassages others) := by
        rw [body_core (proper_of_readLines (Token.lexical_tokenize t) hFirst), hCores,
          ← body_core (proper_of_readLines (Token.lexical_tokenize u) hSecond)]
      obtain ⟨s, hs⟩ := Latex.exists_body_of_block (Latex.exists_block_of_passages hFirst)
      exact Or.inl ⟨ofPassages passages, ofPassages others, s, rfl, rfl, hs, hBody ▸ hs⟩

/-- A carriage return and a blank change nothing that is written of a line and an item, and a tab
behind `y=sum` keeps its error. -/
theorem parse_of_padded_item :
    (Padded "see\n- a".toList "see\r\n- a ".toList ∧
      ∃ d s, parse "see\r\n- a ".toList = .ok d ∧ Latex.body d = .ok s ∧
        Latex.body ⟨[.paragraph "see\n- a".toList]⟩ = .ok s) ∧
    Padded "y=sum".toList "y=sum\t".toList ∧
      ∃ e, parse "y=sum\t".toList = .error e ∧ e.fault = .notFollowedByOpen .sum := by
  have hOk : parse "see\n- a".toList = .ok ⟨[.paragraph "see\n- a".toList]⟩ := by cbv
  have hError : parse "y=sum".toList = .error ⟨.notFollowedByOpen .sum, some 2⟩ := by
    rw [parse_eq_map_readLines]
    cbv
  have hReturn : Padded "see\n- a".toList "see\r\n- a ".toList :=
    @Padded.newline "see".toList ['\r'] _ _ (by simp [Token.isBlank])
      (@Padded.last "- a".toList [' '] (by simp [Token.isBlank]))
  have hTab : Padded "y=sum".toList "y=sum\t".toList :=
    @Padded.last "y=sum".toList ['\t'] (by simp [Token.isBlank])
  refine ⟨⟨hReturn, ?_⟩, hTab, ?_⟩
  · rcases (parse_of_padded _).2 _ hReturn with ⟨d, e, s, hd, he, hs, hs'⟩ | ⟨_, _, hd, _, _⟩
    · rw [hOk] at hd
      cases hd
      exact ⟨e, s, he, hs', hs⟩
    · rw [hOk] at hd
      cases hd
  · rcases (parse_of_padded _).2 _ hTab with ⟨_, _, _, hd, _, _, _⟩ | ⟨e, f, he, hf, hFault⟩
    · rw [hError] at hd
      cases hd
    · rw [hError] at he
      cases he
      exact ⟨f, hf, hFault.symm⟩

end Document

end ProseMath
