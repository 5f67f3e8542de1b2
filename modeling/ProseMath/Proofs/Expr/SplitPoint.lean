import Mathlib.Tactic.Common
import ProseMath.Proofs.Expr.RoundTrip
import ProseMath.Proofs.Token.Seam

/-!
# Where a printed equation is cut

An equation is cut at its first equals sign outside parentheses. To find it only the parentheses and
the equals signs matter. Each of them is always a token of its own, so this outline is the same for
a text and for its tokens, whatever becomes of the names, and printing keeps it.

* `Cursor.outline_marksIn`: scanning keeps the outline of a text.
* `Expr.outline_print`: printing keeps the outline of an expression.
* `Token.EachAt.of_outline`: which equals signs stand outside parentheses is seen in the outline.
* `Equation.print_keeps_split_point`: a printed equation is cut between its sides.
-/

namespace ProseMath

/-! ## Outlines -/

namespace Mark

/-- The marks on which it depends where an equation is cut. -/
def isOutline : Mark → Bool
  | .char c => c == '(' || c == ')' || c == '='
  | .call _ => false

/-- The parentheses and equals signs among some marks. -/
def outline (marks : List Mark) : List Mark := marks.filter isOutline

theorem outline_append (a b : List Mark) : outline (a ++ b) = outline a ++ outline b :=
  List.filter_append ..

theorem isSign_of_isOutline {mark : Mark} (h : mark.isOutline) : mark.IsSign := by
  cases mark with
  | call callee => exact trivial
  | char c =>
    have hCases : (c = '(' ∨ c = ')') ∨ c = '=' := by
      simpa only [isOutline, Bool.or_eq_true, beq_iff_eq] using h
    rcases hCases with (rfl | rfl) | rfl <;> decide

/-- Keywords have no part in the outline. -/
theorem outline_chars (marks : List Mark) : outline ((chars marks).map .char) = outline marks := by
  induction marks with
  | nil => rfl
  | cons mark marks ih =>
    cases mark with
    | char c => rw [chars_char, List.map_cons, outline, List.filter_cons, outline, List.filter_cons,
        ← outline, ← outline, ih]
    | call callee =>
      have hKeyword : outline (callee.keyword.map .char) = [] := by cases callee <;> rfl
      rw [chars_call, List.map_append, outline_append, hKeyword, ih]
      rfl

/-- Spaces have no part in the outline. -/
theorem outline_filter_space (t : Text) :
    outline ((t.filter (· != ' ')).map .char) = outline (t.map .char) := by
  induction t with
  | nil => rfl
  | cons c t ih =>
    by_cases hSpace : c = ' '
    · subst hSpace
      exact ih
    · rw [List.filter_cons_of_pos (by simpa using hSpace), List.map_cons, List.map_cons, outline,
        List.filter_cons, outline, List.filter_cons, ← outline, ← outline, ih]

end Mark

open Mark

/-! ## Scanning and printing keep the outline -/

theorem Cursor.outline_marksIn (before : Option Char) (t : Text) :
    outline (marksIn before t) = outline (t.map .char) := by
  generalize hLength : t.length = n
  induction n using Nat.strongRecOn generalizing before t with
  | ind n ih =>
    cases t with
    | nil => rfl
    | cons c t =>
      rw [List.length_cons] at hLength
      cases hLexeme : Token.lexeme? before (c :: t) with
      | some l =>
        have hShorter := Token.lexeme?_rest_length hLexeme
        rw [List.length_cons] at hShorter
        rw [marksIn_lexeme hLexeme, outline_append, ih l.rest.length (by omega) _ _ rfl,
          ← outline_chars, Token.chars_marksOf, ← Token.lexeme?_append hLexeme, List.map_append,
          outline_append]
      | none =>
        -- a character that starts no token is no punctuation
        have hOther : isOutline (.char c) = false := by
          rw [Bool.eq_false_iff]
          intro hOutline
          have hOperators : ∀ c ∈ ['+', '=', '(', ')', ','], (Token.operator? c).isSome :=
            List.all_iff_forall_prop.mp (by decide)
          obtain ⟨l, hl⟩ := Token.exists_lexeme_of_isSolid
            (Or.inr (Or.inl (hOperators c (isSign_of_isOutline hOutline)))) before t
          rw [hLexeme] at hl
          cases hl
        have hRest : outline ((c :: t).map .char) = outline (t.map .char) :=
          List.filter_cons_of_neg (by simp [hOther])
        have hSkip : marksIn before (c :: t) = marksIn (some c) t := by
          by_cases hBlank : Token.isBlank c
          · exact marksIn_blank hBlank
          · rw [Bool.not_eq_true] at hBlank
            rw [marksIn, tokensIn_dropped hBlank hLexeme, marks_tokensIn]
        rw [hSkip, hRest]
        exact ih t.length (by omega) _ _ rfl

theorem Expr.outline_print (e : Expr) : outline (e.print.map .char) = outline e.marks := by
  rw [← outline_filter_space, filter_print, outline_filter_space, outline_chars]

namespace Token

/-! ## Nesting is seen in the outline -/

theorem outline_stringify (tokens : List Token) :
    outline ((stringify tokens).map .char) = outline (marks tokens) := by
  rw [← chars_marks, outline_chars]

theorem markNesting_outline (marks : List Mark) :
    markNesting (outline marks) = markNesting marks := by
  induction marks with
  | nil => rfl
  | cons mark marks ih =>
    rw [outline, List.filter_cons]
    split
    · exact congrArg (markTurn mark + ·) ih
    · rename_i hOther
      have hTurn : markTurn mark = 0 := by
        apply markTurn_eq_zero <;> rintro rfl <;> exact hOther rfl
      show markNesting (outline marks) = markTurn mark + markNesting marks
      rw [ih, hTurn, Int.zero_add]

section Carry

variable {tokens others : List Token} (hLexical : AllLexical tokens) (hOthers : AllLexical others)
  (hOutline : outline (marks others) = outline (marks tokens))

include hLexical hOthers hOutline

theorem nesting_of_outline : nesting others = nesting tokens := by
  rw [nesting_eq_markNesting hOthers, nesting_eq_markNesting hLexical, ← markNesting_outline,
    hOutline, markNesting_outline]

theorem EachAt.of_outline {property : Int → Prop} {depth : Int}
    (h : EachAt .equals property depth tokens) : EachAt .equals property depth others := by
  rintro before token after rfl hKind
  have hEquals : operator? '=' = some token.kind := hKind ▸ rfl
  -- the sign is in the outline, so it is a mark of the other tokens, and a token ends there
  rw [hOthers.marks_operator hEquals, outline_append, outline, outline,
    List.filter_cons_of_pos (by rfl)] at hOutline
  obtain ⟨a, b, hTokens, hBefore, hRest⟩ := List.filter_eq_append_iff.mp hOutline.symm
  obtain ⟨c, d, rfl, hNone, _, _⟩ := List.filter_eq_cons_iff.mp hRest
  rw [← List.append_assoc] at hTokens
  have hCut : (Mark.char '=').IsSign := by decide
  obtain ⟨left, sign, right, rfl, hLeft, hSign, _⟩ := exists_cut hLexical hCut hTokens
  have hSame : outline (marks left) = outline (marks before) := by
    have hOther : c.filter isOutline = [] := List.filter_eq_nil_iff.mpr hNone
    rw [hLeft, outline, List.filter_append, hBefore, hOther, List.append_nil]
    rfl
  rw [← nesting_of_outline hOthers.left hLexical.left hSame]
  exact h left sign right rfl (hLexical.right.first.kind_of_marksOf hCut rfl hSign)

end Carry

theorem stringify_map_timesAsName (tokens : List Token) :
    stringify (tokens.map timesAsName) = stringify tokens := by
  have hText (token : Token) : (timesAsName token).text = token.text := by
    unfold timesAsName
    split <;> rfl
  rw [stringify, List.flatMap_map]
  exact congrArg (tokens.flatMap ·) (funext hText)

/-- A text in front of an equals sign between blanks is scanned as it is alone, up to the kind of an
`x` at its end. -/
theorem exists_tokenize_equals (a b : Text) :
    ∃ left sign right, tokenize (a ++ [' ', '=', ' '] ++ b) = left ++ sign :: right ∧
      sign.kind = .equals ∧ sign.text = ['='] ∧ sign.offset = (a.length : Int) + 1 ∧
      stringify left = stringify (tokenize a) := by
  have hBreaks : Breaks (' ' :: '=' :: ' ' :: b) := by
    intro c hc
    cases hc
    exact Or.inr rfl
  obtain ⟨left, hTokens, _, hTimes⟩ :=
    tokensAt_append_break a hBreaks (Nat.le_refl 0) (Nat.zero_le _)
  have hLexeme : lexeme? (some ' ') ('=' :: ' ' :: b) = some ⟨.equals, ['='], ' ' :: b⟩ := rfl
  rw [Cursor.tokensIn_blank rfl, Cursor.tokensIn_lexeme hLexeme] at hTokens
  have hTexts : stringify left = stringify (tokenize a) := by
    rw [tokenize_eq_tokensAt, ← stringify_map_timesAsName left, hTimes, stringify_map_timesAsName]
  rw [List.append_assoc, tokenize_eq_tokensAt (a ++ _)]
  exact ⟨left, _, _, hTokens, rfl, rfl, rfl, hTexts⟩

end Token

namespace Equation

/-- A printed equation has an equals sign outside parentheses, and the first one stands between its
sides, whatever names it has. -/
theorem print_keeps_split_point (t : Text) (e : Equation)
    (h : Equation.parse (tokenize t) = .ok e) :
    ∃ left sign right, tokenize e.print = left ++ sign :: right ∧ sign.kind = .equals ∧
      Token.nesting left = 0 ∧ Token.EachAt .equals (· ≠ 0) 0 left ∧
      sign.offset = (e.lhs.print.length : Int) + 1 ∧
      Token.splitEquals? 0 (tokenize e.print) = some (left, right) ∧
      e.print.take sign.start = e.lhs.print ++ [' '] ∧
      e.print.drop sign.stop = ' ' :: e.rhs.print := by
  obtain ⟨before, _, _, hText, _, hLevel, hNone, hParse, _⟩ := Equation.parse_eq_ok_iff.mp h
  obtain ⟨_, hReads⟩ := Expr.reads_of_parse hParse
  have hBefore : Token.AllLexical before := by
    have hLexical := Token.lexical_tokenize t
    rw [hText] at hLexical
    exact hLexical.left
  have hPrint : e.print = e.lhs.print ++ [' ', '=', ' '] ++ e.rhs.print := by
    rw [Equation.print, Equation.toExpr, Expr.print]
  obtain ⟨left, sign, right, hTokens, hSign, hSpelling, hOffset, hLeft⟩ :=
    Token.exists_tokenize_equals e.lhs.print e.rhs.print
  rw [← hPrint] at hTokens
  have hLexical : Token.AllLexical left := by
    have hLexical := Token.lexical_tokenize e.print
    rw [hTokens] at hLexical
    exact hLexical.left
  have hOutline : outline (Token.marks left) = outline (Token.marks before) :=
    calc outline (Token.marks left)
        = outline (Token.marks (tokenize e.lhs.print)) := by
          rw [← Token.outline_stringify, hLeft, Token.outline_stringify]
      _ = outline (e.lhs.print.map .char) := by
          rw [Token.marks_tokenize, Cursor.outline_marksIn]
      _ = outline e.lhs.marks := e.lhs.outline_print
      _ = outline (Token.marks before) := by rw [hReads.marks_eq hBefore]
  have hNesting : Token.nesting left = 0 := by
    rw [Token.nesting_of_outline hBefore hLexical hOutline]
    omega
  have hOutside := hNone.of_outline hBefore hLexical hOutline
  have hStart : sign.start = e.lhs.print.length + 1 := by
    rw [Token.start, hOffset]
    omega
  refine ⟨left, sign, right, hTokens, hSign, hNesting, hOutside, hOffset, ?_, ?_, ?_⟩
  · exact Token.splitEquals?_eq_some_iff.mpr ⟨sign, hSign, hTokens, by omega, hOutside⟩
  · rw [hPrint, hStart, List.append_assoc, List.take_length_add_append]
    rfl
  · have hStop : sign.stop = e.lhs.print.length + 2 := by
      rw [Token.stop, hStart, hSpelling]
      rfl
    rw [hPrint, hStop, List.append_assoc, List.drop_length_add_append]
    rfl

/-- In `f(a = b) s um(1) = c` the sign in parentheses does not count, and it does not matter that
two names grow together to a keyword. -/
theorem print_keeps_split_point_glued :
    ∃ e, Equation.parse (tokenize "f(a = b) s um(1) = c".toList) = .ok e ∧
      e.print = "f(a = b)sum(1) = c".toList ∧
      ∃ left sign right, tokenize e.print = left ++ sign :: right ∧ sign.kind = .equals ∧
        Token.nesting left = 0 ∧ Token.EachAt .equals (· ≠ 0) 0 left ∧ sign.offset = 15 := by
  have hParse : Equation.parse (tokenize "f(a = b) s um(1) = c".toList) =
      .ok ⟨.equation (.identifier "f(a".toList) (.identifier "b)sum(1)".toList),
        .identifier ['c']⟩ := by cbv
  obtain ⟨left, sign, right, hTokens, hSign, hNesting, hOutside, hOffset, _⟩ :=
    print_keeps_split_point _ _ hParse
  exact ⟨_, hParse, by cbv, left, sign, right, hTokens, hSign, hNesting, hOutside, hOffset⟩

end Equation

end ProseMath
