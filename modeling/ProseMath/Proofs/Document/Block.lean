import Mathlib.Tactic.Common
import ProseMath.Proofs.Document.Recast

/-!
# The blocks of a document that was read

Reading gives two sorts of blocks: equations, each from the tokens of one line, and paragraphs that
are trimmed and not blank.

* `Document.proper_of_parse`: every block of a document that was read is of one of these sorts.
-/

namespace ProseMath

open Line

/-- The blocks that can be read from scanned tokens. -/
inductive Block.Proper : Block → Prop
  | equation {tokens : List Token} {e : Equation} (hLexical : Token.AllLexical tokens)
    (hLine : ∀ token ∈ tokens, token.kind ≠ .newline) (hParse : Equation.parse tokens = .ok e) :
    Proper (.equation e)
  | paragraph {tokens : List Token} (hLexical : Token.AllLexical tokens)
    (hText : Text.trim (Token.content tokens) ≠ []) :
    Proper (.paragraph (Text.trim (Token.content tokens)))

theorem readLines_equation {depth : Nat} {lines : List Line} {passages : List Passage}
    (h : readLines depth lines = .ok passages) {passage : Passage} (hPassage : passage ∈ passages)
    {e : Equation} (he : passage.equation = some e) :
    Equation.parse passage.line.tokens = .ok e := by
  induction lines generalizing depth passages with
  | nil =>
    cases h
    cases hPassage
  | cons line rest ih =>
    rw [readLines] at h
    split at h
    · cases h
    · obtain ⟨first, hFirst, h⟩ := Expr.exists_of_bind_eq_ok h
      obtain ⟨later, hLater, h⟩ := Expr.exists_of_bind_eq_ok h
      cases h
      rcases List.mem_cons.mp hPassage with rfl | hPassage
      · cases he
        exact hFirst
      · exact ih hLater hPassage
    · obtain ⟨later, hLater, h⟩ := Expr.exists_of_bind_eq_ok h
      cases h
      rcases List.mem_cons.mp hPassage with rfl | hPassage
      · cases he
      · exact ih hLater hPassage

theorem Segment.block_ne_nil {lines : List Line}
    (h : (Segment.prose lines).draft = [(Segment.prose lines).block]) :
    Text.trim (Token.content (join lines)) ≠ [] := by
  intro hEmpty
  rw [draft, paragraph, hEmpty] at h
  cases h

namespace Document

theorem proper_ofPassages {tokens : List Token} (hLexical : Token.AllLexical tokens) {depth : Nat}
    {passages : List Passage} (h : readLines depth (cut tokens) = .ok passages) :
    ∀ b ∈ (ofPassages passages).blocks, b.Proper := by
  intro b hb
  obtain ⟨segment, hSegment, rfl⟩ := List.mem_map.mp hb
  cases segment with
  | equation e =>
    obtain ⟨passage, hPassage, he⟩ := isOf_of_mem_segments hSegment
    have hTokens := mem_of_readLines h passage hPassage
    exact .equation (fun token hToken => hLexical token (hTokens token hToken).1)
      (fun token hToken => (hTokens token hToken).2) (readLines_equation h hPassage he)
  | prose lines =>
    have hLines : ∀ line ∈ lines, line.Proper := by
      intro line hLine
      obtain ⟨passage, hPassage, rfl⟩ := isOf_of_mem_segments hSegment line hLine
      exact proper_of_readLines hLexical h passage hPassage
    have hDraft := draft_of_mem_segments (Token.not_isWhite_of_readLines hLexical h) hSegment
    exact .paragraph (lexical_join hLines) (Segment.block_ne_nil hDraft)

theorem proper_of_parse {t : Text} {d : Document} (h : parse t = .ok d) :
    ∀ b ∈ d.blocks, b.Proper := by
  obtain ⟨passages, hRead, rfl⟩ := exists_passages_of_parse h
  exact proper_ofPassages (Token.lexical_tokenize t) hRead

end Document

end ProseMath
