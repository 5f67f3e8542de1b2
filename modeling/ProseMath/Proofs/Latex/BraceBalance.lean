import Mathlib.Data.Bool.AllAny
import Mathlib.Data.List.Permutation
import Mathlib.Tactic.Common
import ProseMath.Proofs.Document.SourceLine
import ProseMath.Proofs.Expr.Mark
import ProseMath.Proofs.Latex.WholeWord
import ProseMath.Proofs.Text.BraceLevel

/-!
# Braces of displayed equations

The braces of a line are spread over the names of an expression, at any depth, and a group can begin
in one name and end in another. When the expression is written, each of them comes out where it
stood among the others, and the commands for sums and fractions put pairs of braces around whole
subexpressions. So the written equation is never below the levels of its line.

* `filter_mathSymbols`: symbols have no braces.
* `rises_formula`: an expression and the characters that it was read from.
* `exists_rises_display`: an equation and its line.
* `display_keeps_balance`: the equations of a document.
-/

namespace ProseMath.Latex

open Text

/-! ## Names -/

theorem filter_substituteWords {p : Char → Bool} {table : WordTable}
    (hTable : ∀ entry ∈ table, entry.1.filter p = [] ∧ entry.2.filter p = []) (t : Text) :
    (substituteWords table t).filter p = t.filter p := by
  have hRun (run : Text) : ((table.lookup run).getD run).filter p = run.filter p := by
    cases hLookup : table.lookup run with
    | none => rfl
    | some command =>
      obtain ⟨front, back, rfl, _⟩ := List.lookup_eq_some_iff.mp hLookup
      obtain ⟨hWord, hCommand⟩ := hTable (run, command) (by simp)
      exact hCommand.trans hWord.symm
  have hRuns : (wordRuns t).flatten = t := List.flatten_splitBy sameWord t
  conv_rhs => rw [← hRuns, List.filter_flatten, ← List.flatMap_def]
  rw [substituteWords, List.filter_flatMap]
  exact congrArg (List.flatMap · (wordRuns t)) (funext hRun)

theorem filter_mathSymbols (t : Text) : (mathSymbols t).filter isBrace = t.filter isBrace := by
  have hGreek : ∀ entry ∈ greek, entry.1.filter isBrace = [] ∧ entry.2.filter isBrace = [] :=
    List.all_iff_forall_prop.mp (by decide)
  have hWords : ∀ entry ∈ greek, isWholeWord entry.1 :=
    fun entry hEntry => isWholeWord_symbols entry (List.mem_append_left _ hEntry)
  rw [mathSymbols, replaceWords_eq_substituteWords hWords, filter_substituteWords hGreek]

/-! ## Expressions -/

theorem filter_separated {separator : Text} (h : separator.filter isBrace = [])
    (parts : List Text) :
    (separator.intercalate parts).filter isBrace = parts.flatten.filter isBrace := by
  rw [Expr.filter_intercalate, h, Expr.intercalate_nil_left, List.filter_flatten]

/-- The braces of a call are those of its arguments. -/
theorem filter_call (callee : Callee) (parts : List (List Mark)) :
    (Mark.chars (.call callee :: Mark.enclose parts)).filter isBrace =
      (parts.map Mark.chars).flatten.filter isBrace := by
  have hKeyword : callee.keyword.filter isBrace = [] := by cases callee <;> rfl
  have hArguments : (Mark.chars ([.char ','].intercalate parts)).filter isBrace =
      (parts.map Mark.chars).flatten.filter isBrace := by
    rw [Expr.chars_intercalate]
    exact filter_separated rfl _
  rw [Mark.chars_call, Mark.enclose, Mark.chars_char, Mark.chars_append, List.filter_append,
    hKeyword, List.nil_append, List.filter_cons_of_neg (by decide), List.filter_append, hArguments]
  exact List.append_nil _

/-- Two expressions with a sign between them. -/
theorem rises_sign {x y : Except MissingNode Text} {a b t sign : Text} {c : Char}
    (hSign : sign.filter isBrace = []) (hc : isBrace c = false)
    (hx : ∀ left, x = .ok left → Rises a left) (hy : ∀ right, y = .ok right → Rises b right)
    (h : (do let left ← x; let right ← y; return left ++ sign ++ right) = .ok t) :
    Rises (a ++ c :: b) t := by
  obtain ⟨left, hLeft, h⟩ := Expr.exists_of_bind_eq_ok h
  obtain ⟨right, hRight, h⟩ := Expr.exists_of_bind_eq_ok h
  cases h
  apply ((hx left hLeft).append (hy right hRight)).of_filter
  · simp [hc]
  · simp [hSign]

mutual

/-- An expression is written at or above the levels of the characters that it was read from. -/
theorem rises_formula : ∀ {e : Expr} {t : Text}, formula e = .ok t → Rises (Mark.chars e.marks) t
  | .missing, t, h => by
    rw [formula] at h
    cases h
  | .identifier name, t, h => by
    rw [formula] at h
    cases h
    rw [Expr.marks, Mark.chars_map_char]
    exact rises_of_filter (filter_mathSymbols name)
  | .plus left right, t, h => by
    rw [formula] at h
    rw [Expr.marks, Mark.chars_append, Mark.chars_char]
    exact rises_sign rfl rfl (fun _ hLeft => rises_formula hLeft)
      (fun _ hRight => rises_formula hRight) h
  | .equation lhs rhs, t, h => by
    rw [formula] at h
    rw [Expr.marks, Mark.chars_append, Mark.chars_char]
    exact rises_sign rfl rfl (fun _ hLeft => rises_formula hLeft)
      (fun _ hRight => rises_formula hRight) h
  | .sum lower upper body, t, h => by
    rw [formula] at h
    obtain ⟨first, hFirst, h⟩ := Expr.exists_of_bind_eq_ok h
    obtain ⟨second, hSecond, h⟩ := Expr.exists_of_bind_eq_ok h
    obtain ⟨third, hThird, h⟩ := Expr.exists_of_bind_eq_ok h
    cases h
    -- the braces of the command are those around the bounds
    have hBounds := (rises_formula hFirst).enclose.append (rises_formula hSecond).enclose
    apply (hBounds.append (rises_formula hThird)).of_filter
    · rw [Expr.marks, filter_call]
      simp
    · simp [isBrace]
  | .fraction numerator denominator, t, h => by
    rw [formula] at h
    obtain ⟨first, hFirst, h⟩ := Expr.exists_of_bind_eq_ok h
    obtain ⟨second, hSecond, h⟩ := Expr.exists_of_bind_eq_ok h
    cases h
    apply ((rises_formula hFirst).enclose.append (rises_formula hSecond).enclose).of_filter
    · rw [Expr.marks, filter_call]
      simp
    · simp [isBrace]
  | .sequence items, t, h => by
    rw [formula] at h
    obtain ⟨texts, hTexts, h⟩ := Expr.exists_of_bind_eq_ok h
    cases h
    rw [Expr.marks]
    exact (rises_formulas hTexts).of_filter rfl (filter_separated rfl texts)

theorem rises_formulas : ∀ {items : List Expr} {texts : List Text}, formulas items = .ok texts →
    Rises (Mark.chars (Expr.marksAll items)) texts.flatten
  | [], texts, h => by
    rw [formulas] at h
    cases h
    exact rises_of_filter rfl
  | item :: rest, texts, h => by
    rw [formulas] at h
    obtain ⟨first, hFirst, h⟩ := Expr.exists_of_bind_eq_ok h
    obtain ⟨later, hLater, h⟩ := Expr.exists_of_bind_eq_ok h
    cases h
    rw [Expr.marksAll, Mark.chars_append, List.flatten_cons]
    exact (rises_formula hFirst).append (rises_formulas hLater)

end

/-! ## Equations -/

theorem isSolid_of_isBrace (c : Char) (h : isBrace c) : Token.IsSolid c := by
  rcases Bool.or_eq_true_iff.mp h with hOpening | hClosing
  · cases beq_iff_eq.mp hOpening
    exact Or.inr (Or.inl rfl)
  · cases beq_iff_eq.mp hClosing
    exact Or.inr (Or.inl rfl)

theorem exists_rises_display {line : Text} {e : Equation}
    (h : Equation.parse (tokenize line) = .ok e) : ∃ s, display e = .ok s ∧ Rises line s := by
  have hSource : Mark.chars e.toExpr.marks = Token.stringify (tokenize line) := by
    rw [← Equation.marks_eq h (Token.lexical_tokenize line), Token.chars_marks]
  obtain ⟨s, hDisplay⟩ := exists_display h
  refine ⟨s, hDisplay, ?_⟩
  unfold display at hDisplay
  obtain ⟨value, hValue, hWritten⟩ := Expr.exists_of_bind_eq_ok hDisplay
  cases hWritten
  apply (rises_formula hValue).of_filter
  · rw [hSource]
    exact Token.filter_stringify_tokenize isSolid_of_isBrace line
  · simp [isBrace]

/-- Every line of a text has made an equation or none, and an equation is written with all braces of
its line, balanced if those of the line are. -/
theorem display_keeps_balance {t : Text} {d : Document} (h : Document.parse t = .ok d) :
    ∃ made : List (Option Equation), d.equations = made.filterMap id ∧
      List.Forall₂ (fun line equation => ∀ e ∈ equation,
          Equation.parse (tokenize line) = .ok e ∧
            ∃ s, block (.equation e) = .ok s ∧
              (line.filter isBrace).Sublist (s.filter isBrace) ∧
              (BracesBalanced line → BracesBalanced s))
        (Text.lines t) made := by
  obtain ⟨made, hEquations, hLines⟩ := Document.exists_sources h
  refine ⟨made, hEquations, hLines.imp ?_⟩
  intro line equation hMade e he
  obtain ⟨s, hDisplay, hRises⟩ := exists_rises_display (hMade e he)
  exact ⟨hMade e he, s, hDisplay, hRises.kept, hRises.balanced⟩

/-- A group that is cut by a plus, an equals sign and a comma. -/
theorem display_keeps_balance_of_cut_group :
    ∃ e, Document.parse "\x7ba + b = frac(c, d\x7d)".toList = .ok ⟨[.equation e]⟩ ∧
      BracesBalanced "\x7ba + b = frac(c, d\x7d)".toList ∧
      block (.equation e) = .ok "\\[\x7ba + b = \\frac\x7bc\x7d\x7bd\x7d\x7d\\]\n\n".toList ∧
      BracesBalanced "\\[\x7ba + b = \\frac\x7bc\x7d\x7bd\x7d\x7d\\]\n\n".toList := by
  have hParse : Document.parse "\x7ba + b = frac(c, d\x7d)".toList =
      .ok ⟨[.equation ⟨.plus (.identifier "\x7ba".toList) (.identifier ['b']),
        .fraction (.identifier ['c']) (.identifier "d\x7d".toList)⟩]⟩ := by
    rw [Document.parse_eq_map_readLines]
    cbv
  have hLine : BracesBalanced "\x7ba + b = frac(c, d\x7d)".toList := by decide
  obtain ⟨made, hEquations, hLines⟩ := display_keeps_balance hParse
  rw [Text.lines_of_not_mem (by decide)] at hLines
  obtain ⟨made, rest, hMade, hRest, rfl⟩ := List.forall₂_cons_left_iff.mp hLines
  rw [List.forall₂_nil_left_iff.mp hRest] at hEquations
  cases made with
  | none => cases hEquations
  | some e =>
    obtain ⟨_, s, hBlock, _, hBalanced⟩ := hMade e rfl
    cases hEquations
    obtain rfl : s = "\\[\x7ba + b = \\frac\x7bc\x7d\x7bd\x7d\x7d\\]\n\n".toList :=
      Except.ok.inj (hBlock.symm.trans (by decide +kernel))
    exact ⟨_, hParse, hLine, hBlock, hBalanced hLine⟩

end ProseMath.Latex
