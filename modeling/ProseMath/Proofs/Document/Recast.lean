import Mathlib.Tactic.Common
import ProseMath.Proofs.Document.Segmentation
import ProseMath.Proofs.Document.Verdict
import ProseMath.Proofs.Expr.Recast

/-!
# Documents of changed tokens

A change of tokens that the reading of expressions does not notice (`Recast`) is not noticed by the
reading of documents either: the lines stay the same lines, with the same equations, and they are
put together to the same blocks. Only the content of paragraphs is made of the changed tokens.

* `readLines_map`: lines are read the same after a change.
* `segments_map`: the runs of lines are the same.
* `Document.ofPassages_map`: a change that keeps contents keeps the document.
-/

namespace ProseMath

open Line

/-! ## Changed lines -/

def Line.map (f : Token → Token) (line : Line) : Line := ⟨line.tokens.map f, line.ending.map f⟩

def Line.Verdict.map (f : Token → Token) : Verdict → Verdict
  | .closes token => .closes (f token)
  | .equation => .equation
  | .prose depth => .prose depth

def Passage.map (f : Token → Token) (passage : Passage) : Passage :=
  ⟨passage.line.map f, passage.equation⟩

def Segment.map (f : Token → Token) : Segment → Segment
  | .equation e => .equation e
  | .prose lines => .prose (lines.map (Line.map f))

theorem join_map (f : Token → Token) (lines : List Line) :
    join (lines.map (Line.map f)) = (join lines).map f := by
  induction lines with
  | nil => rfl
  | cons line rest ih =>
    cases rest with
    | nil => rfl
    | cons next rest =>
      rw [List.map_cons] at ih
      rw [List.map_cons, List.map_cons, join, join, ih, List.map_append, List.map_append]
      congr 2
      rw [Line.map]
      cases line.ending <;> rfl

section Recast

variable {f : Token → Token} {move : Int → Int} (h : Recast f move)

include h

theorem cut_map (tokens : List Token) : cut (tokens.map f) = (cut tokens).map (Line.map f) := by
  induction tokens with
  | nil => rfl
  | cons token rest ih =>
    have hNewline := h.kind .newline (by decide) token
    simp only [List.map_cons, cut, hNewline, ih]
    split
    · rfl
    · cases cut rest <;> rfl

theorem verdict_map (depth : Nat) (tokens : List Token) :
    verdict depth (tokens.map f) = (verdict depth tokens).map f := by
  induction tokens generalizing depth with
  | nil => rfl
  | cons token rest ih =>
    have hOpen := h.kind .openParen (by decide) token
    have hClose := h.kind .closeParen (by decide) token
    have hEquals := h.kind .equals (by decide) token
    rw [List.map_cons]
    by_cases hOpened : token.kind = .openParen
    · rw [verdict_opened _ _ hOpened, verdict_opened _ _ (hOpen.mpr hOpened), ih]
    by_cases hClosed : token.kind = .closeParen
    · rw [verdict_closed _ _ hClosed, verdict_closed _ _ (hClose.mpr hClosed), ih]
      split <;> rfl
    by_cases hEqual : token.kind = .equals
    · rw [verdict_equals _ _ hEqual, verdict_equals _ _ (hEquals.mpr hEqual), ih]
      split <;> rfl
    rw [verdict_other _ _ hOpened hClosed hEqual, verdict_other, ih]
    · exact mt hOpen.mp hOpened
    · exact mt hClose.mp hClosed
    · exact mt hEquals.mp hEqual

theorem readLines_map (depth : Nat) (lines : List Line) :
    readLines depth (lines.map (Line.map f)) =
      moved move ((readLines depth lines).map (List.map (Passage.map f))) := by
  induction lines generalizing depth with
  | nil => rfl
  | cons line rest ih =>
    have hVerdict := verdict_map h depth line.tokens
    have hEquation := Equation.parse_map h line.tokens
    have hTokens : (line.map f).tokens = line.tokens.map f := rfl
    rw [List.map_cons, readLines, readLines, hTokens, hVerdict]
    cases verdict depth line.tokens with
    | closes token =>
      simp only [Verdict.map, h.offset]
      rfl
    | equation =>
      simp only [Verdict.map, hEquation, ih]
      cases Equation.parse line.tokens with
      | error e => rfl
      | ok e => cases readLines depth rest <;> rfl
    | prose after =>
      simp only [Verdict.map, ih]
      cases readLines after rest <;> rfl

end Recast

/-! ## Changed runs of lines -/

theorem isText_map (f : Token → Token) (passage : Passage) :
    (passage.map f).isText = passage.isText := by
  simp [Passage.isText, Passage.map, Line.map]

theorem segments_map (f : Token → Token) (passages : List Passage) :
    segments (passages.map (Passage.map f)) = (segments passages).map (Segment.map f) := by
  have hIsText : Passage.isText ∘ Passage.map f = Passage.isText := funext (isText_map f)
  fun_induction segments passages with
  | case1 => exact segments_nil
  | case2 passage rest e he ih =>
    obtain ⟨line, _⟩ := passage
    subst he
    rw [List.map_cons, List.map_cons, ← ih]
    exact segments_equation e
  | case3 passage rest he hBlank ih =>
    obtain ⟨line, _⟩ := passage
    subst he
    have hTokens : line.tokens = [] := by simpa using hBlank
    rw [List.map_cons, ← ih]
    exact segments_blank (by simp [Line.map, hTokens])
  | case4 passage rest he hText ih =>
    obtain ⟨line, _⟩ := passage
    subst he
    have hTokens : line.tokens ≠ [] := by simpa using hText
    rw [List.map_cons, List.map_cons, ← ih]
    refine (segments_text (by simpa [Line.map] using hTokens)).trans ?_
    rw [List.takeWhile_map, List.dropWhile_map, hIsText, List.map_map, Segment.map, List.map_cons,
      List.map_map]
    rfl

/-! ## Documents -/

namespace Document

/-- The document of some passages. -/
def ofPassages (passages : List Passage) : Document := ⟨(segments passages).map Segment.block⟩

theorem parse_eq_map_readLines (t : Text) :
    parse t = (readLines 0 (cut (tokenize t))).map ofPassages :=
  ofTokens_eq_ofLines (Token.lexical_tokenize t)

theorem exists_passages_of_parse {t : Text} {d : Document} (h : parse t = .ok d) :
    ∃ passages, readLines 0 (cut (tokenize t)) = .ok passages ∧ d = ofPassages passages := by
  rw [parse_eq_map_readLines] at h
  cases hRead : readLines 0 (cut (tokenize t)) with
  | error e =>
    rw [hRead] at h
    cases h
  | ok passages =>
    rw [hRead] at h
    cases h
    exact ⟨passages, rfl, rfl⟩

theorem ofPassages_map {f : Token → Token} (hContent : ∀ tokens : List Token,
    Token.content (tokens.map f) = Token.content tokens) (passages : List Passage) :
    ofPassages (passages.map (Passage.map f)) = ofPassages passages := by
  rw [ofPassages, segments_map, List.map_map, ofPassages]
  congr 2
  funext segment
  cases segment with
  | equation e => rfl
  | prose lines =>
    simp only [Function.comp_apply, Segment.map, Segment.block, join_map, hContent]

end Document

end ProseMath
