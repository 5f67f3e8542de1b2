import Mathlib.Tactic.Common
import ProseMath.Proofs.Expr.Reread
import ProseMath.Proofs.Token.Rescan

/-!
# Printing and reading again

A printed expression is scanned anew, and blanks that printing puts in or leaves out can change the
tokens: names can grow together to a keyword, or a keyword can come off a name. The keywords of the
calls themselves always stay. So the printed text has at least as many keywords as the expression
has calls, and it is read as the same expression exactly if it has no more.

* `Reads.scans`: the marks of a printed expression are those of the expression, unless there are
  more keywords among them.
* `parse_print_eq_ok_iff`: an equation survives printing and reading exactly if no name of it turns
  into a keyword.
-/

namespace ProseMath

/-! ## Counting calls -/

namespace Mark

def isCall : Mark → Bool
  | .char _ => false
  | .call _ => true

def calls (marks : List Mark) : Nat := marks.countP isCall

theorem calls_append (a b : List Mark) : calls (a ++ b) = calls a + calls b := List.countP_append

theorem calls_map_char (t : Text) : calls (t.map .char) = 0 := by
  rw [calls, List.countP_eq_zero]
  intro mark hMark
  obtain ⟨c, _, rfl⟩ := List.mem_map.mp hMark
  simp [isCall]

theorem calls_char (c : Char) (marks : List Mark) : calls (.char c :: marks) = calls marks :=
  List.countP_cons_of_neg (by simp [isCall])

theorem calls_call (callee : Callee) (marks : List Mark) :
    calls (.call callee :: marks) = calls marks + 1 :=
  List.countP_cons_of_pos rfl

theorem calls_enclose (parts : List (List Mark)) :
    calls (enclose parts) = calls parts.flatten := by
  have hInside : calls ([.char ','].intercalate parts) = calls parts.flatten := by
    induction parts with
    | nil => rfl
    | cons part rest ih =>
      cases rest with
      | nil => simp
      | cons next rest =>
        rw [List.intercalate_cons_cons, List.append_assoc, calls_append, List.singleton_append,
          calls_char, ih, ← calls_append]
        rfl
  rw [enclose, calls_char, calls_append, hInside]
  rfl

theorem eq_map_char_of_calls {marks : List Mark} (h : calls marks = 0) :
    marks = (chars marks).map .char := by
  induction marks with
  | nil => rfl
  | cons mark marks ih =>
    rw [← List.singleton_append, calls_append] at h
    cases mark with
    | char c => rw [chars_char, List.map_cons, ← ih (by omega)]
    | call callee =>
      have : calls [.call callee] = 1 := rfl
      omega

/-- Marks that can only differ from the expected ones by having more calls. -/
structure Within (found expected : List Mark) : Prop where
  le : calls expected ≤ calls found
  eq : calls found = calls expected → found = expected

theorem Within.refl (marks : List Mark) : Within marks marks := ⟨Nat.le_refl _, fun _ => rfl⟩

theorem Within.append {a b a' b' : List Mark} (ha : Within a a') (hb : Within b b') :
    Within (a ++ b) (a' ++ b') := by
  obtain ⟨ha, haEq⟩ := ha
  obtain ⟨hb, hbEq⟩ := hb
  constructor
  · rw [calls_append, calls_append]
    omega
  · intro h
    rw [calls_append, calls_append] at h
    rw [haEq (by omega), hbEq (by omega)]

theorem within_name {marks : List Mark} {name : Text} (h : chars marks = name) :
    Within marks (name.map .char) := by
  constructor
  · rw [calls_map_char]
    exact Nat.zero_le _
  · intro hCalls
    rw [calls_map_char] at hCalls
    rw [eq_map_char_of_calls hCalls, h]

end Mark

/-! ## The marks of a scan -/

namespace Cursor

/-- The marks of the tokens of a text. -/
def marksIn (before : Option Char) (t : Text) : List Mark := Token.marks (tokensIn before 0 [] t)

theorem marks_tokensIn (before : Option Char) (offset : Nat) (space t : Text) :
    Token.marks (tokensIn before offset space t) = marksIn before t := by
  suffices ∀ n, ∀ (t : Text) (before : Option Char) (a b : Nat) (s r : Text), t.length = n →
      Token.marks (tokensIn before a s t) = Token.marks (tokensIn before b r t) from
    this _ t before offset 0 space [] rfl
  intro n
  induction n using Nat.strongRecOn with
  | ind n ih =>
    intro t before a b s r hLength
    cases t with
    | nil => rfl
    | cons c t =>
      rw [List.length_cons] at hLength
      by_cases hBlank : Token.isBlank c
      · rw [tokensIn_blank hBlank, tokensIn_blank hBlank]
        exact ih t.length (by omega) t _ _ _ _ _ rfl
      · rw [Bool.not_eq_true] at hBlank
        cases hLexeme : Token.lexeme? before (c :: t) with
        | none =>
          rw [tokensIn_dropped hBlank hLexeme, tokensIn_dropped hBlank hLexeme]
          exact ih t.length (by omega) t _ _ _ _ _ rfl
        | some l =>
          have hRest := Token.lexeme?_rest_length hLexeme
          rw [List.length_cons] at hRest
          rw [tokensIn_lexeme hLexeme, tokensIn_lexeme hLexeme, Token.marks_cons,
            Token.marks_cons, ih l.rest.length (by omega) l.rest _ _ _ _ _ rfl]
          rfl

section Equations

variable {before : Option Char} {c : Char} {t : Text}

theorem marksIn_blank (h : Token.isBlank c) : marksIn before (c :: t) = marksIn (some c) t := by
  rw [marksIn, tokensIn_blank h, marks_tokensIn]

theorem marksIn_lexeme {l : Token.Lexeme} (h : Token.lexeme? before t = some l) :
    marksIn before t = Token.marksOf ⟨l.kind, l.text, 0, []⟩ ++ marksIn l.text.getLast? l.rest := by
  rw [marksIn, tokensIn_lexeme h, Token.marks_cons, marks_tokensIn]
  rfl

theorem marksIn_sign (hSign : (Mark.char c).IsSign) :
    marksIn before (c :: t) = .char c :: marksIn (some c) t := by
  have hOperators : ∀ c ∈ ['+', '=', '(', ')', ','], c ≠ '\n' ∧ c ≠ '-' ∧
      ∃ kind ∈ [Kind.plus, .equals, .openParen, .closeParen, .comma],
        Token.operator? c = some kind :=
    List.all_iff_forall_prop.mp (by decide)
  obtain ⟨hNewline, hMinus, kind, hKinds, hKind⟩ := hOperators c hSign
  have hLexeme : Token.lexeme? before (c :: t) = some ⟨kind, [c], t⟩ := by
    rw [Token.lexeme?, if_neg hNewline, if_neg fun h => hMinus h.1, hKind]
  rw [marksIn_lexeme hLexeme, Token.marksOf_not_call]
  · rfl
  · intro callee hCall
    have hIdentifier : kind = .identifier := (Expr.pivot?_eq_call_iff.mp hCall).1
    subst hIdentifier
    simp at hKinds

theorem marksIn_keyword (callee : Callee) :
    marksIn before (callee.keyword ++ '(' :: t) =
      [.call callee, .char '('] ++ marksIn (some '(') t := by
  have hLexeme : Token.lexeme? before (callee.keyword ++ '(' :: t) =
      some ⟨.identifier, callee.keyword, '(' :: t⟩ := by
    cases callee <;> rfl
  have hMarks : Token.marksOf ⟨.identifier, callee.keyword, 0, []⟩ = [.call callee] := by
    cases callee <;> rfl
  rw [marksIn_lexeme hLexeme, hMarks, marksIn_sign (by decide)]
  rfl

/-- The character in front of a delimiter does not matter. -/
theorem marksIn_delimited (h : Token.Delimited t) : marksIn before t = marksIn none t := by
  cases t with
  | nil => rfl
  | cons c t =>
    have hCases : c = ' ' ∨ (Mark.char c).IsSign := by
      have hAll : ∀ c ∈ [' ', ',', ')'], c = ' ' ∨ (Mark.char c).IsSign :=
        List.all_iff_forall_prop.mp (by decide)
      exact hAll c (h c rfl)
    rcases hCases with rfl | hSign
    · rw [marksIn_blank rfl, marksIn_blank rfl]
    · rw [marksIn_sign hSign, marksIn_sign hSign]

end Equations

end Cursor

/-! ## Scanning what was printed -/

/-- In front of a delimiter the text is scanned as the expected marks, or has more calls. -/
def Scans (text : Text) (expected : List Mark) : Prop :=
  ∀ (before : Option Char) (v : Text), Token.Delimited v →
    ∃ found, Cursor.marksIn before (text ++ v) = found ++ Cursor.marksIn none v ∧
      Mark.Within found expected

theorem exists_marks_solid {t v : Text} (hSolid : Token.Solid t) (hDelimited : Token.Delimited v)
    (before : Option Char) :
    ∃ found, Cursor.marksIn before (t ++ v) = found ++ Cursor.marksIn none v ∧
      Mark.chars found = t := by
  -- a lexeme is taken off the front of the text
  generalize hLength : t.length = n
  induction n using Nat.strongRecOn generalizing t before with
  | ind n ih =>
    cases t with
    | nil => exact ⟨[], Cursor.marksIn_delimited hDelimited, rfl⟩
    | cons c t =>
      obtain ⟨l, u, hLexeme, hText, hRest, hSolidRest⟩ :=
        Token.exists_lexeme hSolid hDelimited before
      have hShorter : u.length < n := by
        have hPositive := List.length_pos_iff.mpr (Token.lexeme?_text_ne_nil hLexeme)
        rw [← hLength, ← hText, List.length_append]
        omega
      obtain ⟨found, hFound, hChars⟩ := ih u.length hShorter hSolidRest l.text.getLast? rfl
      refine ⟨Token.marksOf ⟨l.kind, l.text, 0, []⟩ ++ found, ?_, ?_⟩
      · rw [List.cons_append, Cursor.marksIn_lexeme hLexeme, hRest, hFound, List.append_assoc]
      · rw [Mark.chars_append, Token.chars_marksOf, hChars]
        exact hText

namespace Scans

variable {a b : Text} {ea eb : List Mark} {c : Char}

theorem name {name : Text} (h : Token.Solid name) : Scans name (name.map .char) := by
  intro before v hDelimited
  obtain ⟨found, hFound, hChars⟩ := exists_marks_solid h hDelimited before
  exact ⟨found, hFound, Mark.within_name hChars⟩

theorem blank (hb : Scans b eb) : Scans (' ' :: b) eb := by
  intro before v hDelimited
  rw [List.cons_append, Cursor.marksIn_blank rfl]
  exact hb (some ' ') v hDelimited

theorem sign (hSign : (Mark.char c).IsSign) (hb : Scans b eb) :
    Scans (c :: b) (.char c :: eb) := by
  intro before v hDelimited
  obtain ⟨found, hFound, hWithin⟩ := hb (some c) v hDelimited
  refine ⟨.char c :: found, ?_, (Mark.Within.refl [.char c]).append hWithin⟩
  rw [List.cons_append, Cursor.marksIn_sign hSign, hFound, List.cons_append]

theorem keyword (callee : Callee) (hb : Scans b eb) :
    Scans (callee.keyword ++ '(' :: b) (.call callee :: .char '(' :: eb) := by
  intro before v hDelimited
  obtain ⟨found, hFound, hWithin⟩ := hb (some '(') v hDelimited
  refine ⟨[.call callee, .char '('] ++ found, ?_, (Mark.Within.refl [_, _]).append hWithin⟩
  rw [List.append_assoc, List.cons_append, Cursor.marksIn_keyword, hFound, List.append_assoc]

/-- Texts stay apart if the second starts with a delimiter. -/
theorem append (hDelimiter : c ∈ [' ', ',', ')']) (ha : Scans a ea) (hb : Scans (c :: b) eb) :
    Scans (a ++ c :: b) (ea ++ eb) := by
  intro before v hDelimited
  have hStart : Token.Delimited (c :: b ++ v) := by
    intro d hd
    rwa [← Option.some.inj hd]
  obtain ⟨fa, hfa, hWithinA⟩ := ha before (c :: b ++ v) hStart
  obtain ⟨fb, hfb, hWithinB⟩ := hb none v hDelimited
  refine ⟨fa ++ fb, ?_, hWithinA.append hWithinB⟩
  rw [List.append_assoc, hfa, hfb, List.append_assoc]

theorem operator (hSign : (Mark.char c).IsSign) (ha : Scans a ea) (hb : Scans b eb) :
    Scans (a ++ [' ', c, ' '] ++ b) (ea ++ .char c :: eb) := by
  rw [List.append_assoc]
  exact append (by decide) ha (hb.blank.sign hSign).blank

theorem intercalate {texts : List Text} {parts : List (List Mark)}
    (h : List.Forall₂ Scans texts parts) :
    Scans ([',', ' '].intercalate texts) ([.char ','].intercalate parts) := by
  induction h with
  | nil => exact name .nil
  | cons hText hRest ih =>
    cases hRest with
    | nil => simpa using hText
    | cons hNext hRest =>
      rw [List.intercalate_cons_cons, List.intercalate_cons_cons, List.append_assoc,
        List.append_assoc]
      exact append (by decide) hText (ih.blank.sign (by decide))

theorem call (callee : Callee) {texts : List Text} {parts : List (List Mark)}
    (h : List.Forall₂ Scans texts parts) :
    Scans (Expr.printCall callee texts) (.call callee :: Mark.enclose parts) := by
  have hClose : Scans [')'] [.char ')'] := sign (by decide) (name .nil)
  exact keyword callee (append (by decide) (intercalate h) hClose)

end Scans

namespace Expr

/-! ## What was read -/

theorem printAll_append (a b : List Expr) : printAll (a ++ b) = printAll a ++ printAll b := by
  induction a with
  | nil => rfl
  | cons item a ih => rw [List.cons_append, printAll, printAll, ih, List.cons_append]

theorem intercalate_printAll_items (e : Expr) : [' '].intercalate (printAll e.items) = e.print := by
  cases e with
  | sequence list => rw [print, items]
  | _ => exact List.intercalate_singleton

theorem intercalate_append {α : Type} (separator : List α) {a b : List (List α)} (ha : a ≠ [])
    (hb : b ≠ []) :
    separator.intercalate (a ++ b) =
      separator.intercalate a ++ (separator ++ separator.intercalate b) := by
  induction a with
  | nil => exact absurd rfl ha
  | cons part a ih =>
    cases a with
    | nil => rw [List.singleton_append, List.intercalate_cons_of_ne_nil hb,
        List.intercalate_singleton, List.append_assoc]
    | cons next a =>
      rw [List.cons_append, List.cons_append, List.intercalate_cons_cons, ← List.cons_append,
        ih (by simp), List.intercalate_cons_cons]
      simp only [List.append_assoc]

theorem print_juxtapose {a b : Expr} (ha : a.items ≠ []) (hb : b.items ≠ []) :
    (juxtapose a b).print = a.print ++ ' ' :: b.print := by
  have hPrint : ∀ {list : List Expr}, list ≠ [] → printAll list ≠ [] := by
    intro list hList
    cases list with
    | nil => exact absurd rfl hList
    | cons item rest => simp [printAll]
  rw [juxtapose, print, printAll_append, intercalate_append _ (hPrint ha) (hPrint hb),
    intercalate_printAll_items, intercalate_printAll_items]
  rfl

theorem items_juxtapose (a b : Expr) : (juxtapose a b).items = a.items ++ b.items := rfl

theorem items_attach_ne_nil {before : List Token} {call : Expr} (h : call.items ≠ []) :
    (attach before call).items ≠ [] := by
  unfold attach
  split
  · exact h
  · simp [juxtapose, items]

theorem Reads.items_ne_nil {form : Form} {tokens : List Token} {e : Expr}
    (h : Reads form tokens e) : e.items ≠ [] := by
  induction h with
  | sum _ _ _ _ _ _ _ _ _ => exact items_attach_ne_nil (by simp [items])
  | fraction _ _ _ _ _ _ _ => exact items_attach_ne_nil (by simp [items])
  | juxtapose _ _ _ ihl _ =>
    rw [items_juxtapose]
    exact List.append_ne_nil_of_left_ne_nil ihl _
  | _ => simp [items]

theorem scans_juxtapose {a b : Expr} (ha : a.items ≠ []) (hb : b.items ≠ [])
    (hScansA : Scans a.print a.marks) (hScansB : Scans b.print b.marks) :
    Scans (juxtapose a b).print (juxtapose a b).marks := by
  rw [print_juxtapose ha hb, marks_juxtapose]
  exact .append (by decide) hScansA hScansB.blank

theorem scans_attach {before : List Token} {call : Expr}
    (hLexical : Token.AllLexical before) (hCall : call.items ≠ [])
    (hScans : Scans call.print call.marks) :
    Scans (attach before call).print (attach before call).marks := by
  have hName : Scans (print (.identifier (Token.stringify before)))
      (marks (.identifier (Token.stringify before))) := by
    rw [print, marks]
    exact .name (Token.solid_stringify hLexical)
  unfold attach
  split
  · exact hScans
  · exact scans_juxtapose (by simp [items]) hCall hName hScans

/-- Printed and scanned again, an expression that was read has its own marks or more calls. -/
theorem Reads.scans {form : Form} {tokens : List Token} {e : Expr} (h : Reads form tokens e)
    (hLexical : Token.AllLexical tokens) : Scans e.print e.marks := by
  induction h with
  | identifier _ =>
    rw [print, marks]
    exact .name (Token.solid_stringify hLexical)
  | sum _ _ hTokens _ _ _ ihl ihu ihb =>
    have hGroups := lexical_of_enclosed hTokens hLexical.right.rest
    refine scans_attach hLexical.left (by simp [items]) ?_
    rw [print, marks]
    exact .call .sum (.cons (ihl (hGroups _ (by simp))) (.cons (ihu (hGroups _ (by simp)))
      (.cons (ihb (hGroups _ (by simp))) .nil)))
  | fraction _ _ hTokens _ _ ihn ihd =>
    have hGroups := lexical_of_enclosed hTokens hLexical.right.rest
    refine scans_attach hLexical.left (by simp [items]) ?_
    rw [print, marks]
    exact .call .frac (.cons (ihn (hGroups _ (by simp))) (.cons (ihd (hGroups _ (by simp))) .nil))
  | plus _ _ _ _ ihl ihr =>
    rw [print, marks]
    exact .operator (by decide) (ihl hLexical.left) (ihr hLexical.right.rest)
  | equation _ _ _ _ ihl ihr =>
    rw [print, marks]
    exact .operator (by decide) (ihl hLexical.left) (ihr hLexical.right.rest)
  | juxtapose hLeft _ hRight ihl ihr =>
    exact scans_juxtapose hLeft.items_ne_nil hRight.items_ne_nil (ihl hLexical.left)
      (ihr hLexical.right)

/-! ## Calls of an expression -/

mutual

/-- How many sums and fractions an expression has. -/
def callCount : Expr → Nat
  | .missing => 0
  | .identifier _ => 0
  | .plus left right => left.callCount + right.callCount
  | .equation lhs rhs => lhs.callCount + rhs.callCount
  | .sum lower upper body => lower.callCount + upper.callCount + body.callCount + 1
  | .fraction numerator denominator => numerator.callCount + denominator.callCount + 1
  | .sequence items => callCountAll items

def callCountAll : List Expr → Nat
  | [] => 0
  | item :: rest => item.callCount + callCountAll rest

end

mutual

theorem calls_marks : ∀ e : Expr, Mark.calls e.marks = e.callCount
  | .missing => rfl
  | .identifier name => by rw [marks, callCount, Mark.calls_map_char]
  | .plus left right => by
    rw [marks, callCount, Mark.calls_append, calls_marks left, Mark.calls_char, calls_marks right]
  | .equation lhs rhs => by
    rw [marks, callCount, Mark.calls_append, calls_marks lhs, Mark.calls_char, calls_marks rhs]
  | .sum lower upper body => by
    rw [marks, callCount, Mark.calls_call, Mark.calls_enclose]
    simp only [List.flatten_cons, List.flatten_nil, List.append_nil, Mark.calls_append,
      calls_marks lower, calls_marks upper, calls_marks body]
    omega
  | .fraction numerator denominator => by
    rw [marks, callCount, Mark.calls_call, Mark.calls_enclose]
    simp only [List.flatten_cons, List.flatten_nil, List.append_nil, Mark.calls_append,
      calls_marks numerator, calls_marks denominator]
  | .sequence items => by rw [marks, callCount, calls_marksAll items]

theorem calls_marksAll : ∀ items : List Expr, Mark.calls (marksAll items) = callCountAll items
  | [] => rfl
  | item :: rest => by
    rw [marksAll, callCountAll, Mark.calls_append, calls_marks item, calls_marksAll rest]

end

end Expr

namespace Token

/-- A token that calls a form wherever it stands. -/
def isKeyword (token : Token) : Bool :=
  token.kind == .identifier &&
    (token.text == Callee.sum.keyword || token.text == Callee.frac.keyword)

theorem calls_marksOf (token : Token) :
    Mark.calls token.marksOf = if token.isKeyword then 1 else 0 := by
  have hKeyword : token.isKeyword ↔ ∃ callee, Expr.pivot? token = some (.call callee) := by
    simp only [isKeyword, Expr.pivot?_eq_call_iff, Bool.and_eq_true, Bool.or_eq_true, beq_iff_eq]
    constructor
    · rintro ⟨hKind, hText | hText⟩
      · exact ⟨.sum, hKind, hText⟩
      · exact ⟨.frac, hKind, hText⟩
    · rintro ⟨callee, hKind, hText⟩
      cases callee with
      | sum => exact ⟨hKind, Or.inl hText⟩
      | frac => exact ⟨hKind, Or.inr hText⟩
  by_cases hCall : ∃ callee, Expr.pivot? token = some (.call callee)
  · rw [if_pos (hKeyword.mpr hCall)]
    obtain ⟨callee, hCall⟩ := hCall
    rw [marksOf_call hCall]
    rfl
  · rw [if_neg (mt hKeyword.mp hCall), marksOf_not_call (not_exists.mp hCall),
      Mark.calls_map_char]

theorem calls_marks (tokens : List Token) :
    Mark.calls (marks tokens) = tokens.countP isKeyword := by
  induction tokens with
  | nil => rfl
  | cons token tokens ih =>
    rw [marks_cons, Mark.calls_append, calls_marksOf, ih, List.countP_cons, Nat.add_comm]

theorem marks_tokenize (t : Text) : marks (tokenize t) = Cursor.marksIn none t := by
  rw [tokenize, Cursor.tokens_eq_tokensIn]
  rfl

end Token

/-! ## The round trip -/

namespace Equation

theorem scans {tokens : List Token} {e : Equation} (h : Equation.parse tokens = .ok e)
    (hLexical : Token.AllLexical tokens) : Scans e.print e.toExpr.marks := by
  obtain ⟨left, sign, right, rfl, _, _, _, hLeft, hRight⟩ := Equation.parse_eq_ok_iff.mp h
  obtain ⟨_, hLeft⟩ := Expr.reads_of_parse hLeft
  obtain ⟨_, hRight⟩ := Expr.reads_of_parse hRight
  rw [Equation.print, Equation.toExpr, Expr.print, Expr.marks]
  exact .operator (by decide) (hLeft.scans hLexical.left) (hRight.scans hLexical.right.rest)

theorem within_print {t : Text} {e : Equation} (h : Equation.parse (tokenize t) = .ok e) :
    Mark.Within (Token.marks (tokenize e.print)) e.toExpr.marks := by
  obtain ⟨found, hFound, hWithin⟩ :=
    scans h (Token.lexical_tokenize t) none [] (by simp [Token.Delimited])
  rw [List.append_nil] at hFound
  have hNothing : Cursor.marksIn none [] = [] := rfl
  rwa [Token.marks_tokenize, hFound, hNothing, List.append_nil]

/-- Printing loses no call. -/
theorem callCount_le_countP_isKeyword {t : Text} {e : Equation}
    (h : Equation.parse (tokenize t) = .ok e) :
    e.toExpr.callCount ≤ (tokenize e.print).countP Token.isKeyword := by
  rw [← Expr.calls_marks, ← Token.calls_marks]
  exact (within_print h).le

/-- An equation that was read from a text is read again from its printed form exactly if this has
no more keywords than the equation has calls. -/
theorem parse_print_eq_ok_iff (t : Text) (e : Equation) (h : Equation.parse (tokenize t) = .ok e) :
    Equation.parse (tokenize e.print) = .ok e ↔
      (tokenize e.print).countP Token.isKeyword = e.toExpr.callCount := by
  have hPrinted := Token.lexical_tokenize e.print
  rw [← Token.calls_marks, ← Expr.calls_marks]
  constructor
  · intro hAgain
    rw [Equation.marks_eq hAgain hPrinted]
  · intro hCalls
    have hSame : Token.marks (tokenize e.print) = Token.marks (tokenize t) := by
      rw [(within_print h).eq hCalls, Equation.marks_eq h (Token.lexical_tokenize t)]
    exact Equation.parse_of_marks h (Token.lexical_tokenize t) hPrinted hSame

/-- The equation `y=sum(i=1,n,i)c` is read again, but in `y = s um(1)` two names grow together to a
keyword. -/
theorem parse_print_eq_ok_iff_glued :
    (∃ e, Equation.parse (tokenize "y=sum(i=1,n,i)c".toList) = .ok e ∧
        Equation.parse (tokenize e.print) = .ok e) ∧
      ∃ e, Equation.parse (tokenize "y = s um(1)".toList) = .ok e ∧
        Equation.parse (tokenize e.print) ≠ .ok e := by
  let product : Equation := ⟨.identifier ['y'], .sequence [.sum (.equation (.identifier ['i'])
    (.identifier ['1'])) (.identifier ['n']) (.identifier ['i']), .identifier ['c']]⟩
  let name : Equation := ⟨.identifier ['y'], .identifier ['s', 'u', 'm', '(', '1', ')']⟩
  have hProduct : Equation.parse (tokenize "y=sum(i=1,n,i)c".toList) = .ok product := by cbv
  have hName : Equation.parse (tokenize "y = s um(1)".toList) = .ok name := by cbv
  have hProductCount : (tokenize product.print).countP Token.isKeyword =
      product.toExpr.callCount := by cbv
  have hNameCount : (tokenize name.print).countP Token.isKeyword = 1 := by cbv
  have hNameCalls : name.toExpr.callCount = 0 := by cbv
  refine ⟨⟨_, hProduct, (parse_print_eq_ok_iff _ _ hProduct).mpr hProductCount⟩, _, hName, ?_⟩
  intro hAgain
  have hCount := (parse_print_eq_ok_iff _ _ hName).mp hAgain
  rw [hNameCount, hNameCalls] at hCount
  cases hCount

end Equation

end ProseMath
