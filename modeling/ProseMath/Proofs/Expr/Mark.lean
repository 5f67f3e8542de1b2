import Mathlib.Data.List.Permutation
import Mathlib.Tactic.Common
import ProseMath.Expr.Printer
import ProseMath.Proofs.Expr.Grammar
import ProseMath.Proofs.Token.Spelling

/-!
# Marks

How a text is cut into tokens is not visible in the expression that is read from it: names are
tokens put together again. What is visible is the sequence of characters, and which of them are the
keyword of a call. This sequence, the marks of a token list, is compared with the marks of an
expression.

* `Reads.marks_eq`: tokens and the expression they are read as have the same marks.
* `exists_cut`: where the marks have a sign, such as a parenthesis, a token ends.
* `print_filter_eq_stringify`: no token is lost, repeated or moved by reading.
-/

namespace ProseMath

/-- A character, or a keyword that calls a form. -/
inductive Mark where
  | char (c : Char)
  | call (callee : Callee)
deriving DecidableEq

namespace Mark

def chars (marks : List Mark) : Text :=
  marks.flatMap fun
    | .char c => [c]
    | .call callee => callee.keyword

/-- Marks that are always a token of their own. -/
def IsSign : Mark → Prop
  | .char c => c ∈ ['+', '=', '(', ')', ',']
  | .call _ => True

instance : DecidablePred IsSign
  | .char c => inferInstanceAs (Decidable (c ∈ ['+', '=', '(', ')', ',']))
  | .call _ => inferInstanceAs (Decidable True)

/-- Marks in parentheses, separated by commas. -/
def enclose (parts : List (List Mark)) : List Mark :=
  .char '(' :: ([.char ','].intercalate parts ++ [.char ')'])

theorem chars_append (a b : List Mark) : chars (a ++ b) = chars a ++ chars b := List.flatMap_append

theorem chars_char (c : Char) (marks : List Mark) : chars (.char c :: marks) = c :: chars marks :=
  rfl

theorem chars_call (callee : Callee) (marks : List Mark) :
    chars (.call callee :: marks) = callee.keyword ++ chars marks := rfl

theorem chars_map_char (t : Text) : chars (t.map .char) = t := by
  induction t with
  | nil => rfl
  | cons c t ih => rw [List.map_cons, chars_char, ih]

end Mark

namespace Token

open ProseMath.Expr

def marksOf (token : Token) : List Mark :=
  match pivot? token with
  | some (.call callee) => [.call callee]
  | _ => token.text.map .char

/-- The marks of a token list. -/
def marks (tokens : List Token) : List Mark := tokens.flatMap marksOf

theorem marks_cons (token : Token) (tokens : List Token) :
    marks (token :: tokens) = token.marksOf ++ marks tokens := rfl

theorem marks_append (a b : List Token) : marks (a ++ b) = marks a ++ marks b :=
  List.flatMap_append

/-! ## The marks of a token -/

section One

variable {token : Token}

theorem marksOf_call {callee : Callee} (h : pivot? token = some (.call callee)) :
    token.marksOf = [.call callee] := by
  rw [marksOf, h]

theorem marksOf_not_call (h : ∀ callee, pivot? token ≠ some (.call callee)) :
    token.marksOf = token.text.map .char := by
  unfold marksOf
  split
  · rename_i callee hCall
    exact absurd hCall (h callee)
  · rfl

theorem chars_marksOf (token : Token) : Mark.chars token.marksOf = token.text := by
  unfold marksOf
  split
  · rename_i callee hCall
    rw [(pivot?_eq_call_iff.mp hCall).2]
    exact List.append_nil _
  · exact Mark.chars_map_char _

/-- A punctuation token is the mark of its character. -/
theorem Lexical.marksOf_operator (hLexical : token.Lexical) {c : Char}
    (hOperator : operator? c = some token.kind) : token.marksOf = [.char c] := by
  rw [marksOf_not_call, hLexical.spells.eq_singleton hOperator]
  · rfl
  · intro callee hCall
    rw [(pivot?_eq_call_iff.mp hCall).1] at hOperator
    exact operator?_ne (by decide) hOperator

theorem Lexical.marksOf_ne_nil (hLexical : token.Lexical) : token.marksOf ≠ [] := by
  intro h
  have hChars := chars_marksOf token
  rw [h] at hChars
  exact hLexical.spells.text_ne_nil hChars.symm

/-- A sign that occurs in a token is the whole token. -/
theorem Lexical.marksOf_sign (hLexical : token.Lexical) {mark : Mark} (hSign : mark.IsSign)
    (hMark : mark ∈ token.marksOf) : token.marksOf = [mark] := by
  by_cases hCall : ∃ callee, pivot? token = some (.call callee)
  · obtain ⟨callee, hCall⟩ := hCall
    rw [marksOf_call hCall] at hMark ⊢
    rw [List.mem_singleton.mp hMark]
  · rw [marksOf_not_call (not_exists.mp hCall)] at hMark ⊢
    obtain ⟨c, hc, rfl⟩ := List.mem_map.mp hMark
    have hOperators : ∀ c ∈ ['+', '=', '(', ')', ','], c ≠ '-' ∧ c ≠ '.' ∧ (operator? c).isSome :=
      List.all_iff_forall_prop.mp (by decide)
    obtain ⟨hMinus, hPoint, hSome⟩ := hOperators c hSign
    obtain ⟨kind, hKind⟩ := Option.isSome_iff_exists.mp hSome
    rw [(hLexical.spells.eq_of_mem_operator hKind hMinus hPoint hc).2]
    rfl

/-- The kind of a token that is a sign. -/
theorem Lexical.kind_of_marksOf (hLexical : token.Lexical) {c : Char} {kind : Kind}
    (hSign : (Mark.char c).IsSign) (hOperator : operator? c = some kind)
    (hMarks : token.marksOf = [.char c]) : token.kind = kind := by
  have hText : token.text = [c] := by
    rw [← chars_marksOf, hMarks]
    rfl
  have hOperators : ∀ c ∈ ['+', '=', '(', ')', ','], c ≠ '-' ∧ c ≠ '.' :=
    List.all_iff_forall_prop.mp (by decide)
  obtain ⟨hMinus, hPoint⟩ := hOperators c hSign
  exact (hLexical.spells.eq_of_mem_operator hOperator hMinus hPoint (by simp [hText])).1

theorem pivot?_of_marksOf_call {callee : Callee} (hMarks : token.marksOf = [.call callee]) :
    pivot? token = some (.call callee) := by
  unfold marksOf at hMarks
  split at hMarks
  · rename_i found hCall
    cases hMarks
    exact hCall
  · have hMem : Mark.call callee ∈ token.text.map Mark.char := by simp [hMarks]
    obtain ⟨c, _, hc⟩ := List.mem_map.mp hMem
    cases hc

end One

theorem chars_marks (tokens : List Token) : Mark.chars (marks tokens) = stringify tokens := by
  induction tokens with
  | nil => rfl
  | cons token tokens ih =>
    rw [marks_cons, Mark.chars_append, chars_marksOf, ih]
    rfl

theorem marks_of_noPivot {tokens : List Token} (h : NoPivot tokens) :
    marks tokens = (stringify tokens).map .char := by
  induction tokens with
  | nil => rfl
  | cons token tokens ih =>
    rw [marks_cons, ih fun other hOther => h other (List.mem_cons_of_mem _ hOther),
      marksOf_not_call fun callee => by rw [h token List.mem_cons_self]; simp, ← List.map_append]
    rfl

/-! ## Cutting at a sign -/

theorem AllLexical.marks_operator {left right : List Token} {operator : Token} {c : Char}
    (h : AllLexical (left ++ operator :: right)) (hOperator : operator? c = some operator.kind) :
    marks (left ++ operator :: right) = marks left ++ .char c :: marks right := by
  rw [marks_append, marks_cons, h.right.first.marksOf_operator hOperator]
  rfl

theorem exists_cut {tokens : List Token} (hLexical : AllLexical tokens)
    {a b : List Mark} {mark : Mark} (hSign : mark.IsSign) (h : marks tokens = a ++ mark :: b) :
    ∃ left token right, tokens = left ++ token :: right ∧ marks left = a ∧
      token.marksOf = [mark] ∧ marks right = b := by
  induction tokens generalizing a with
  | nil => simp [marks] at h
  | cons token tokens ih =>
    rw [marks_cons] at h
    -- either the sign stands behind the first token, or it is in it
    rcases List.append_eq_append_iff.mp h with ⟨a', rfl, hTokens⟩ | ⟨c, hToken, hTokens⟩
    · obtain ⟨left, other, right, rfl, rfl, hOther, hRight⟩ := ih hLexical.rest hTokens
      exact ⟨token :: left, other, right, rfl, rfl, hOther, hRight⟩
    · cases c with
      | nil =>
        rw [List.append_nil] at hToken
        obtain ⟨left, other, right, rfl, hLeft, hOther, hRight⟩ :=
          ih hLexical.rest (a := []) hTokens.symm
        refine ⟨token :: left, other, right, rfl, ?_, hOther, hRight⟩
        rw [marks_cons, hLeft, List.append_nil, hToken]
      | cons first c =>
        obtain ⟨rfl, rfl⟩ := List.cons.inj hTokens
        have hWhole := hLexical.first.marksOf_sign hSign (by simp [hToken])
        rw [hWhole] at hToken
        obtain ⟨rfl, rfl⟩ : a = [] ∧ c = [] := by
          cases a with
          | nil => exact ⟨rfl, by simpa using hToken⟩
          | cons x a => simp at hToken
        exact ⟨[], token, tokens, rfl, rfl, hWhole, rfl⟩

end Token

namespace Expr

/-! ## The marks of an expression -/

mutual

/-- The marks of the tokens that an expression is read from. -/
def marks : Expr → List Mark
  | .missing => [.char '?']
  | .identifier name => name.map .char
  | .plus left right => left.marks ++ .char '+' :: right.marks
  | .equation lhs rhs => lhs.marks ++ .char '=' :: rhs.marks
  | .sum lower upper body => .call .sum :: Mark.enclose [lower.marks, upper.marks, body.marks]
  | .fraction numerator denominator =>
    .call .frac :: Mark.enclose [numerator.marks, denominator.marks]
  | .sequence items => marksAll items

def marksAll : List Expr → List Mark
  | [] => []
  | item :: rest => item.marks ++ marksAll rest

end

theorem marksAll_append (a b : List Expr) : marksAll (a ++ b) = marksAll a ++ marksAll b := by
  induction a with
  | nil => rfl
  | cons item a ih => rw [List.cons_append, marksAll, marksAll, ih, List.append_assoc]

theorem marksAll_items (e : Expr) : marksAll e.items = e.marks := by
  cases e with
  | sequence list => rw [marks, items]
  | _ => exact List.append_nil _

theorem marks_juxtapose (a b : Expr) : (juxtapose a b).marks = a.marks ++ b.marks := by
  rw [juxtapose, marks, marksAll_append, marksAll_items, marksAll_items]

theorem marks_attach {before : List Token} (h : NoPivot before) (call : Expr) :
    (attach before call).marks = Token.marks before ++ call.marks := by
  unfold attach
  split
  · rename_i hEmpty
    rw [List.isEmpty_iff.mp hEmpty]
    rfl
  · rw [marks_juxtapose, marks, Token.marks_of_noPivot h]

/-! ## Reading keeps the marks -/

theorem marks_argumentList {depth : Nat} {groups : List (List Token)} {tokens : List Token}
    (h : Token.ArgumentList depth groups tokens) (hLexical : Token.AllLexical tokens) :
    Token.marks tokens = [Mark.char ','].intercalate (groups.map Token.marks) := by
  induction h with
  | one _ => simp
  | @more _ group comma groups tokens _ hComma hRest ih =>
    have hMore : groups.map Token.marks ≠ [] := by
      cases hRest <;> simp
    rw [hLexical.marks_operator (c := ',') (by rw [hComma]; rfl), ih hLexical.right.rest,
      List.map_cons, List.intercalate_cons_of_ne_nil hMore, List.append_assoc]
    rfl

theorem marks_enclosed {groups : List (List Token)} {tokens : List Token}
    (h : Enclosed groups tokens) (hLexical : Token.AllLexical tokens) :
    Token.marks tokens = Mark.enclose (groups.map Token.marks) := by
  obtain ⟨hOpen, hInside, hClose⟩ := h
  rename_i paren close inside
  have hFirst : paren.marksOf = [.char '('] :=
    hLexical.first.marksOf_operator (by rw [hOpen]; rfl)
  rw [Token.marks_cons, hFirst, hLexical.rest.marks_operator (c := ')') (by rw [hClose]; rfl),
    marks_argumentList hInside hLexical.rest.left]
  rfl

theorem lexical_of_enclosed {groups : List (List Token)} {tokens : List Token}
    (h : Enclosed groups tokens) (hLexical : Token.AllLexical tokens) :
    ∀ group ∈ groups, Token.AllLexical group :=
  h.forall_mem hLexical

theorem Reads.marks_eq {form : Form} {tokens : List Token} {e : Expr} (h : Reads form tokens e)
    (hLexical : Token.AllLexical tokens) : Token.marks tokens = e.marks := by
  induction h with
  | identifier hBefore => rw [marks, Token.marks_of_noPivot hBefore]
  | sum hBefore hKeyword hTokens _ _ _ ihl ihu ihb =>
    have hInner := hLexical.right.rest
    have hGroups := lexical_of_enclosed hTokens hInner
    rw [Token.marks_append, Token.marks_cons, Token.marksOf_call hKeyword,
      marks_enclosed hTokens hInner, marks_attach hBefore, marks, ← ihl (hGroups _ (by simp)),
      ← ihu (hGroups _ (by simp)), ← ihb (hGroups _ (by simp))]
    rfl
  | fraction hBefore hKeyword hTokens _ _ ihn ihd =>
    have hInner := hLexical.right.rest
    have hGroups := lexical_of_enclosed hTokens hInner
    rw [Token.marks_append, Token.marks_cons, Token.marksOf_call hKeyword,
      marks_enclosed hTokens hInner, marks_attach hBefore, marks, ← ihn (hGroups _ (by simp)),
      ← ihd (hGroups _ (by simp))]
    rfl
  | plus _ _ hOperator _ ihl ihr =>
    rw [hLexical.marks_operator (c := '+') (by rw [hOperator]; rfl), marks, ihl hLexical.left,
      ihr hLexical.right.rest]
  | equation _ _ hOperator _ ihl ihr =>
    rw [hLexical.marks_operator (c := '=') (by rw [hOperator]; rfl), marks, ihl hLexical.left,
      ihr hLexical.right.rest]
  | juxtapose _ _ _ ihl ihr =>
    rw [Token.marks_append, marks_juxtapose, ihl hLexical.left, ihr hLexical.right]

end Expr

theorem Equation.marks_eq {tokens : List Token} {e : Equation} (h : Equation.parse tokens = .ok e)
    (hLexical : Token.AllLexical tokens) : Token.marks tokens = e.toExpr.marks := by
  obtain ⟨left, sign, right, rfl, hSign, _, _, hLeft, hRight⟩ := Equation.parse_eq_ok_iff.mp h
  obtain ⟨_, hLeft⟩ := Expr.reads_of_parse hLeft
  obtain ⟨_, hRight⟩ := Expr.reads_of_parse hRight
  rw [hLexical.marks_operator (c := '=') (by rw [hSign]; rfl), Equation.toExpr, Expr.marks,
    hLeft.marks_eq hLexical.left, hRight.marks_eq hLexical.right.rest]

/-! ## Printing keeps the characters -/

namespace Expr

theorem filter_intercalate {α : Type} (p : α → Bool) (separator : List α) (parts : List (List α)) :
    (separator.intercalate parts).filter p =
      (separator.filter p).intercalate (parts.map (List.filter p)) := by
  induction parts with
  | nil => rfl
  | cons part rest ih =>
    cases rest with
    | nil => simp
    | cons next rest =>
      rw [List.intercalate_cons_cons, List.filter_append, List.filter_append, ih]
      simp only [List.map_cons, List.intercalate_cons_cons]

theorem chars_intercalate (separator : List Mark) (parts : List (List Mark)) :
    Mark.chars (separator.intercalate parts) =
      (Mark.chars separator).intercalate (parts.map Mark.chars) := by
  induction parts with
  | nil => rfl
  | cons part rest ih =>
    cases rest with
    | nil => simp
    | cons next rest =>
      rw [List.intercalate_cons_cons, Mark.chars_append, Mark.chars_append, ih]
      simp only [List.map_cons, List.intercalate_cons_cons]

/-- Blanks apart, a call has the characters of its keyword and its arguments. -/
theorem filter_printCall (callee : Callee) {texts : List Text} {parts : List (List Mark)}
    (h : texts.map (List.filter (· != ' ')) =
      parts.map fun part => (Mark.chars part).filter (· != ' ')) :
    (printCall callee texts).filter (· != ' ') =
      (Mark.chars (.call callee :: Mark.enclose parts)).filter (· != ' ') := by
  have hTexts : ([',', ' '].intercalate texts).filter (· != ' ') =
      (Mark.chars ([.char ','].intercalate parts)).filter (· != ' ') := by
    rw [chars_intercalate, filter_intercalate, filter_intercalate, h, List.map_map]
    rfl
  rw [printCall, Mark.chars_call, Mark.enclose, Mark.chars_char, Mark.chars_append,
    List.filter_append, List.filter_append, List.filter_cons, List.filter_cons, List.filter_append,
    List.filter_append, hTexts]
  rfl

theorem intercalate_nil_left {α : Type} (parts : List (List α)) :
    [].intercalate parts = parts.flatten := by
  induction parts with
  | nil => rfl
  | cons part rest ih =>
    cases rest with
    | nil => simp
    | cons next rest => rw [List.intercalate_cons_cons, ih, List.append_nil, ← List.flatten_cons]

mutual

theorem filter_print : ∀ e : Expr,
    e.print.filter (· != ' ') = (Mark.chars e.marks).filter (· != ' ')
  | .missing => rfl
  | .identifier name => by rw [print, marks, Mark.chars_map_char]
  | .plus left right => by
    rw [print, marks, Mark.chars_append, Mark.chars_char]
    simp [filter_print left, filter_print right]
  | .equation lhs rhs => by
    rw [print, marks, Mark.chars_append, Mark.chars_char]
    simp [filter_print lhs, filter_print rhs]
  | .sum lower upper body => by
    rw [print, marks, filter_printCall]
    simp [filter_print lower, filter_print upper, filter_print body]
  | .fraction numerator denominator => by
    rw [print, marks, filter_printCall]
    simp [filter_print numerator, filter_print denominator]
  | .sequence list => by
    rw [print, marks, filter_intercalate, ← filter_printAll list]
    exact intercalate_nil_left _

theorem filter_printAll : ∀ items : List Expr,
    ((printAll items).map (List.filter (· != ' '))).flatten =
      (Mark.chars (marksAll items)).filter (· != ' ')
  | [] => rfl
  | item :: rest => by
    rw [printAll, marksAll, List.map_cons, List.flatten_cons, Mark.chars_append,
      List.filter_append, filter_print item, filter_printAll rest]

end

end Expr

/-- Reading neither loses nor repeats nor moves a token: spaces apart, what is read from some
consecutive tokens of a text is printed as the texts of these tokens. -/
theorem print_filter_eq_stringify (t : Text) (tokens : List Token)
    (hTokens : tokens <:+: tokenize t) :
    (∀ e, Expr.parse tokens = .ok e → e.print.filter (· != ' ') = Token.stringify tokens) ∧
      ∀ e, Equation.parse tokens = .ok e → e.print.filter (· != ' ') = Token.stringify tokens := by
  have hLexical : Token.AllLexical tokens := fun token hToken =>
    Token.lexical_tokenize t token (hTokens.subset hToken)
  have hChars : ∀ e : Expr, Token.marks tokens = e.marks →
      e.print.filter (· != ' ') = Token.stringify tokens := by
    intro e hMarks
    rw [Expr.filter_print, ← hMarks, Token.chars_marks, List.filter_eq_self]
    intro c hc
    obtain ⟨token, hToken, hc⟩ := List.mem_flatMap.mp hc
    have hBlank := (hLexical token hToken).spells.not_isBlank c hc
    rw [bne_iff_ne]
    rintro rfl
    cases hBlank
  constructor
  · intro e h
    obtain ⟨_, hReads⟩ := Expr.reads_of_parse h
    exact hChars e (hReads.marks_eq hLexical)
  · intro e h
    exact hChars e.toExpr (Equation.marks_eq h hLexical)

/-- Behind the minus sign of `- y = 2 x frac(a, b) c`. -/
theorem print_filter_eq_stringify_behind_sign :
    Equation.parse ((tokenize "- y = 2 x frac(a, b) c".toList).drop 1) =
        .ok ⟨.identifier ['y'], .sequence [.identifier ['2', 'x'],
          .fraction (.identifier ['a']) (.identifier ['b']), .identifier ['c']]⟩ ∧
      (Expr.equation (.identifier ['y']) (.sequence [.identifier ['2', 'x'],
          .fraction (.identifier ['a']) (.identifier ['b']), .identifier ['c']])).print.filter
        (· != ' ') = Token.stringify ((tokenize "- y = 2 x frac(a, b) c".toList).drop 1) := by
  have hParse : Equation.parse ((tokenize "- y = 2 x frac(a, b) c".toList).drop 1) =
      .ok ⟨.identifier ['y'], .sequence [.identifier ['2', 'x'],
        .fraction (.identifier ['a']) (.identifier ['b']), .identifier ['c']]⟩ := by cbv
  exact ⟨hParse, (print_filter_eq_stringify _ _ (List.drop_suffix 1 _).isInfix).2 _ hParse⟩

end ProseMath
