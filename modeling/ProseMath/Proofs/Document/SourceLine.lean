import Mathlib.Data.List.Forall2
import Mathlib.Tactic.Common
import ProseMath.Proofs.Document.FixedPoint

/-!
# The lines that equations are read from

The lines of tokens are the lines of the text, and each is scanned as if it stood alone, only
further on. So every equation of a document can be traced back to the line of the text that it was
read from, and the equations stand in the order of their lines.

* `Token.filter_stringify_tokenize`: characters that always start a token are all scanned.
* `forall₂_cut`: lines of text and lines of tokens.
* `equations_ofPassages`: the equations of a document, line by line.
* `Document.exists_sources`: each equation and its line.
-/

namespace ProseMath

open Line

/-! ## Characters that are never dropped -/

namespace Token

theorem IsSolid.not_isBlank {c : Char} (h : IsSolid c) : isBlank c = false := by
  rw [Bool.eq_false_iff]
  intro hBlank
  have hSpace := isSpace_of_isBlank hBlank
  rcases h with rfl | hOperator | hName
  · cases hBlank
  · obtain ⟨kind, hKind⟩ := Option.isSome_iff_exists.mp hOperator
    cases hSpace.symm.trans (not_isSpace_of_operator? hKind)
  · cases hSpace.symm.trans (not_isSpace_of_isNameChar hName)

section Filter

variable {p : Char → Bool} (hp : ∀ c, p c → IsSolid c)

include hp

theorem filter_recognised (before : Option Char) (t : Text) :
    (recognised before t).filter p = t.filter p := by
  induction t generalizing before with
  | nil => rfl
  | cons c t ih =>
    rw [recognised]
    split
    · rename_i hDropped
      have hc : ¬ p c := by
        intro hc
        cases hDropped.symm.trans (not_isDropped_of_isSolid (hp c hc))
      rw [ih, List.filter_cons_of_neg hc]
    · rw [List.filter_cons, List.filter_cons, ih]

theorem filter_rdropWhile (t : Text) : (t.rdropWhile isBlank).filter p = t.filter p := by
  induction t using List.reverseRecOn with
  | nil => rfl
  | append_singleton t c ih =>
    rw [List.rdropWhile_concat]
    split
    · rename_i hBlank
      have hc : ¬ p c := by
        intro hc
        cases hBlank.symm.trans (hp c hc).not_isBlank
      rw [ih, List.filter_append, List.filter_cons_of_neg hc, List.filter_nil, List.append_nil]
    · rfl

theorem filter_stringify_tokenize (t : Text) : (stringify (tokenize t)).filter p = t.filter p := by
  have hLexical := lexical_tokenize t
  have hCovers : Covers 0 t (tokenize t) := by
    rw [tokenize_eq_tokensAt]
    exact (standing_zero t).covers
  have hBlank : (fun c => p c && !isBlank c) = p := by
    funext c
    cases hc : p c with
    | false => rfl
    | true => rw [(hp c hc).not_isBlank]; rfl
  rw [← filter_content hLexical, List.filter_filter, hBlank, content_of_covers hLexical hCovers,
    filter_rdropWhile hp, List.drop_zero, filter_recognised hp]

end Filter

theorem kind_ne_newline_of_mem {line : Text} (h : '\n' ∉ line) :
    ∀ token ∈ tokenize line, token.kind ≠ .newline := by
  intro token hToken hNewline
  have hText := (lexical_tokenize line token hToken).text_of_newline hNewline
  have hMem : '\n' ∈ (stringify (tokenize line)).filter (· == '\n') :=
    List.mem_filter.mpr ⟨List.mem_flatMap.mpr ⟨token, hToken, by simp [hText]⟩, rfl⟩
  rw [filter_stringify_tokenize fun c hc => Or.inl (beq_iff_eq.mp hc)] at hMem
  exact h (List.mem_filter.mp hMem).1

end Token

/-! ## Lines of text and lines of tokens -/

/-- The tokens of a line of text, wherever it stands. -/
def Line.IsOf (text : Text) (line : Line) : Prop :=
  ∃ distance, line.tokens = (tokenize text).map (Token.shift distance)

theorem cut_of_line {tokens : List Token} (h : ∀ token ∈ tokens, token.kind ≠ .newline) :
    cut tokens = [⟨tokens, none⟩] := by
  induction tokens with
  | nil => rfl
  | cons token rest ih =>
    obtain ⟨hToken, hRest⟩ := List.forall_mem_cons.mp h
    rw [cut, if_neg hToken, ih hRest]

theorem forall₂_cut (t : Text) : List.Forall₂ Line.IsOf (Text.lines t) (cut (tokenize t)) := by
  have hAlone (line : Text) (ending : Option Token) : Line.IsOf line ⟨tokenize line, ending⟩ := by
    refine ⟨0, ?_⟩
    have hShift : Token.shift 0 = id := funext fun token => by simp [Token.shift]
    rw [hShift, List.map_id]
  induction t using Text.lines_induction with
  | last line hLine =>
    rw [Text.lines_of_not_mem hLine, cut_of_line (Token.kind_ne_newline_of_mem hLine)]
    exact .cons (hAlone line none) .nil
  | newline line rest hLine ih =>
    obtain ⟨newline, hNewline, hTokens⟩ := Token.exists_tokenize_newline line rest
    obtain ⟨lines, last, hCut, hMore⟩ := cut_append_newline (tokenize line)
    rw [cut_of_line (Token.kind_ne_newline_of_mem hLine)] at hCut
    obtain ⟨rfl, hLast⟩ : lines = [] ∧ last = tokenize line := by
      cases lines with
      | nil => exact ⟨rfl, by simpa using hCut.symm⟩
      | cons line lines => simp at hCut
    rw [Text.lines_append_newline, Text.lines_of_not_mem hLine, hTokens, hMore _ _ hNewline, hLast,
      cut_map (recast_shift _)]
    refine .cons (hAlone line (some newline)) (List.forall₂_map_right_iff.mpr (ih.imp ?_))
    rintro text ⟨tokens, ending⟩ ⟨distance, rfl⟩
    exact ⟨_, by rw [Line.map, List.map_map, Token.shift_shift]⟩

/-! ## Equations and their lines -/

/-- The equation of a block, if it is one. -/
def Block.equation? : Block → Option Equation
  | .equation e => some e
  | _ => none

namespace Document

/-- The equations of a document. -/
def equations (d : Document) : List Equation := d.blocks.filterMap Block.equation?

theorem equations_ofPassages (passages : List Passage) :
    (ofPassages passages).equations = passages.filterMap Passage.equation := by
  show ((segments passages).map Segment.block).filterMap Block.equation? = _
  fun_induction segments passages with
  | case1 => rfl
  | case2 passage rest e he ih =>
    rw [List.map_cons, List.filterMap_cons, List.filterMap_cons, he, ← ih]
    rfl
  | case3 passage rest he _ ih => rw [List.filterMap_cons, he, ← ih]
  | case4 passage rest he _ ih =>
    -- the lines of a run of prose are no equations
    have hRun : (rest.takeWhile Passage.isText).filterMap Passage.equation = [] := by
      rw [List.filterMap_eq_nil_iff]
      intro other hOther
      have hText : other.isText := List.mem_takeWhile_imp hOther
      exact Option.isNone_iff_eq_none.mp (Bool.and_eq_true_iff.mp hText).1
    have hRest : rest.filterMap Passage.equation =
        (rest.dropWhile Passage.isText).filterMap Passage.equation := by
      conv_lhs => rw [← List.takeWhile_append_dropWhile (p := Passage.isText) (l := rest)]
      rw [List.filterMap_append, hRun, List.nil_append]
    rw [List.map_cons, List.filterMap_cons, List.filterMap_cons, he, hRest, ← ih]
    rfl

/-- Every line of a text has made an equation, which can be read from the line alone, or none. -/
theorem exists_sources {t : Text} {d : Document} (h : parse t = .ok d) :
    ∃ made : List (Option Equation), d.equations = made.filterMap id ∧
      List.Forall₂ (fun line equation => ∀ e ∈ equation, Equation.parse (tokenize line) = .ok e)
        (Text.lines t) made := by
  obtain ⟨passages, hRead, rfl⟩ := exists_passages_of_parse h
  refine ⟨passages.map Passage.equation, ?_, ?_⟩
  · rw [equations_ofPassages, List.filterMap_map]
    rfl
  · have hLines := forall₂_cut t
    rw [← readLines_lines hRead, List.forall₂_map_right_iff] at hLines
    rw [List.forall₂_map_right_iff]
    rw [List.forall₂_iff_zip] at hLines ⊢
    refine ⟨hLines.1, fun hMem e he => ?_⟩
    obtain ⟨distance, hTokens⟩ := hLines.2 hMem
    have hParse := readLines_equation hRead (List.of_mem_zip hMem).2 he
    rw [hTokens, Equation.parse_map (recast_shift distance)] at hParse
    exact eq_ok_of_moved hParse

end Document

end ProseMath
