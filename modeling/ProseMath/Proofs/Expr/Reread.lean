import Mathlib.Data.List.Basic
import Mathlib.Tactic.Common
import ProseMath.Proofs.Expr.Mark

/-!
# Equal marks, equal expressions

Token lists with the same marks are read as the same expression, however differently they are cut
into tokens. Everything the grammar asks for is carried over from one list to the other: both are
cut at the same signs, and the nesting of parentheses is the same before each of them.

* `Reads.of_marks`: a derivation for one list is one for the other.
* `Equation.parse_of_marks`: the same for equations.
-/

namespace ProseMath

namespace Token

/-! ## Nesting -/

def markTurn : Mark → Int
  | .char '(' => 1
  | .char ')' => -1
  | _ => 0

theorem markTurn_eq_zero {mark : Mark} (hOpen : mark ≠ .char '(') (hClose : mark ≠ .char ')') :
    markTurn mark = 0 := by
  unfold markTurn
  split
  · exact absurd rfl hOpen
  · exact absurd rfl hClose
  · rfl

/-- The nesting as it is seen in the marks. -/
def markNesting (marks : List Mark) : Int :=
  marks.foldr (fun mark level => markTurn mark + level) 0

theorem markNesting_append (a b : List Mark) :
    markNesting (a ++ b) = markNesting a + markNesting b := by
  induction a with
  | nil => exact (Int.zero_add _).symm
  | cons mark a ih =>
    show markTurn mark + markNesting (a ++ b) = markTurn mark + markNesting a + markNesting b
    rw [ih, Int.add_assoc]

theorem markNesting_eq_zero {marks : List Mark}
    (h : ∀ mark ∈ marks, mark ≠ .char '(' ∧ mark ≠ .char ')') : markNesting marks = 0 := by
  induction marks with
  | nil => rfl
  | cons mark marks ih =>
    obtain ⟨hOpen, hClose⟩ := h mark List.mem_cons_self
    show markTurn mark + markNesting marks = 0
    rw [markTurn_eq_zero hOpen hClose,
      ih fun other hOther => h other (List.mem_cons_of_mem _ hOther)]
    rfl

theorem turn_eq_markNesting {token : Token} (h : token.Lexical) :
    turn token = markNesting token.marksOf := by
  by_cases hOpen : token.kind = .openParen
  · rw [turn_opened hOpen, h.marksOf_operator (c := '(') (by rw [hOpen]; rfl)]
    rfl
  · by_cases hClose : token.kind = .closeParen
    · rw [turn_closed hClose, h.marksOf_operator (c := ')') (by rw [hClose]; rfl)]
      rfl
    · rw [turn_other hOpen hClose, markNesting_eq_zero]
      intro mark hMark
      constructor
      · rintro rfl
        have hSign : (Mark.char '(').IsSign := by decide
        exact hOpen (h.kind_of_marksOf hSign rfl (h.marksOf_sign hSign hMark))
      · rintro rfl
        have hSign : (Mark.char ')').IsSign := by decide
        exact hClose (h.kind_of_marksOf hSign rfl (h.marksOf_sign hSign hMark))

theorem nesting_eq_markNesting {tokens : List Token} (h : AllLexical tokens) :
    nesting tokens = markNesting (marks tokens) := by
  induction tokens with
  | nil => rfl
  | cons token tokens ih =>
    rw [nesting_cons, marks_cons, markNesting_append, turn_eq_markNesting h.first,
      ih h.rest]

theorem nesting_congr {a b : List Token} (ha : AllLexical a)
    (hb : AllLexical b) (h : marks a = marks b) : nesting a = nesting b := by
  rw [nesting_eq_markNesting ha, nesting_eq_markNesting hb, h]

theorem eq_nil_of_marks {tokens : List Token} (h : AllLexical tokens)
    (hMarks : marks tokens = []) : tokens = [] := by
  cases tokens with
  | nil => rfl
  | cons token tokens =>
    rw [marks_cons, List.append_eq_nil_iff] at hMarks
    exact absurd hMarks.1 h.first.marksOf_ne_nil

/-! ## Argument lists -/

/-- Where tokens have a sign, others with the same marks have it as well. -/
theorem exists_operator_of_marks {left right others : List Token} {operator : Token} {c : Char}
    {kind : Kind} (hSign : (Mark.char c).IsSign) (hOperator : operator? c = some kind)
    (hKind : operator.kind = kind) (hLexical : AllLexical (left ++ operator :: right))
    (hOthers : AllLexical others) (hMarks : marks others = marks (left ++ operator :: right)) :
    ∃ left' sign right', others = left' ++ sign :: right' ∧ sign.kind = kind ∧
      marks left' = marks left ∧ marks right' = marks right := by
  rw [hLexical.marks_operator (hKind ▸ hOperator)] at hMarks
  obtain ⟨left', sign, right', rfl, hLeft, hSame, hRight⟩ := exists_cut hOthers hSign hMarks
  exact ⟨left', sign, right', rfl, hOthers.right.first.kind_of_marksOf hSign hOperator hSame, hLeft,
    hRight⟩

section Carry

variable {tokens others : List Token} (hLexical : AllLexical tokens)
  (hOthers : AllLexical others) (hMarks : marks others = marks tokens)

include hLexical hOthers hMarks

theorem EachAt.of_marks {kind : Kind} {property : Int → Prop} {depth : Int} {c : Char}
    (hSign : (Mark.char c).IsSign) (hOperator : operator? c = some kind)
    (h : EachAt kind property depth tokens) : EachAt kind property depth others := by
  rintro before token after rfl hKind
  obtain ⟨left, sign, right, rfl, hSame, hLeft, _⟩ :=
    exists_operator_of_marks hSign hOperator hKind hOthers hLexical hMarks.symm
  rw [← nesting_congr hLexical.left hOthers.left hLeft]
  exact h left sign right rfl hSame

theorem IsArgument.of_marks {depth : Nat} (h : IsArgument depth tokens) :
    IsArgument depth others := by
  obtain ⟨hLevel, hClosing, hCommas⟩ := isArgument_iff.mp h
  refine isArgument_iff.mpr ⟨?_, ?_, ?_⟩
  · rw [nesting_congr hOthers hLexical hMarks, hLevel]
  · exact hClosing.of_marks hLexical hOthers hMarks (c := ')') (by decide) rfl
  · exact hCommas.of_marks hLexical hOthers hMarks (c := ',') (by decide) rfl

end Carry

theorem ArgumentList.of_marks {depth : Nat} {groups : List (List Token)} {tokens : List Token}
    (h : ArgumentList depth groups tokens) (hLexical : AllLexical tokens)
    {others : List Token} (hOthers : AllLexical others)
    (hMarks : marks others = marks tokens) :
    ∃ groups', ArgumentList depth groups' others ∧ groups'.map marks = groups.map marks := by
  induction h generalizing others with
  | one hGroup =>
    exact ⟨[others], .one (hGroup.of_marks hLexical hOthers hMarks), by simp [hMarks]⟩
  | more hGroup hComma _ ih =>
    obtain ⟨left, sign, right, rfl, hKind, hLeft, hRight⟩ :=
      exists_operator_of_marks (c := ',') (by decide) rfl hComma hLexical hOthers hMarks
    obtain ⟨groups', hList, hGroups⟩ := ih hLexical.right.rest hOthers.right.rest hRight
    refine ⟨left :: groups', .more ?_ hKind hList, by simp [hLeft, hGroups]⟩
    exact hGroup.of_marks hLexical.left hOthers.left hLeft

end Token

namespace Expr

open Token

theorem Enclosed.of_marks {groups : List (List Token)} {tokens : List Token}
    (h : Enclosed groups tokens) (hLexical : AllLexical tokens)
    {others : List Token} (hOthers : AllLexical others)
    (hMarks : Token.marks others = Token.marks tokens) :
    ∃ groups', Enclosed groups' others ∧ groups'.map Token.marks = groups.map Token.marks := by
  obtain ⟨hOpen, hInside, hClose⟩ := h
  rename_i paren close inside
  obtain ⟨left, paren', right, rfl, hParen, hLeft, hRight⟩ :=
    @exists_operator_of_marks [] _ _ _ '(' _ (by decide) rfl hOpen hLexical hOthers hMarks
  obtain rfl := eq_nil_of_marks hOthers.left hLeft
  obtain ⟨inside', close', after, rfl, hLast, hInner, hAfter⟩ :=
    exists_operator_of_marks (c := ')') (by decide) rfl hClose hLexical.rest hOthers.rest hRight
  obtain rfl := eq_nil_of_marks hOthers.rest.right.rest hAfter
  obtain ⟨groups', hList, hGroups⟩ := hInside.of_marks hLexical.rest.left hOthers.rest.left hInner
  exact ⟨groups', .intro hParen hList hLast, hGroups⟩

/-! ## Derivations -/

/-- A deciding token is the mark of its decision. -/
theorem marksOf_of_pivot? {token : Token} (h : token.Lexical) {pivot : Pivot}
    (hPivot : pivot? token = some pivot) :
    ∃ mark : Mark, mark.IsSign ∧ token.marksOf = [mark] ∧
      ∀ other : Token, other.Lexical → other.marksOf = [mark] → pivot? other = some pivot := by
  cases pivot with
  | plus =>
    have hKind := kind_of_pivot?_plus hPivot
    refine ⟨.char '+', by decide, h.marksOf_operator (by rw [hKind]; rfl), ?_⟩
    intro other hOther hMarks
    exact pivot?_of_plus (hOther.kind_of_marksOf (by decide) rfl hMarks)
  | equals =>
    have hKind := kind_of_pivot?_equals hPivot
    refine ⟨.char '=', by decide, h.marksOf_operator (by rw [hKind]; rfl), ?_⟩
    intro other hOther hMarks
    exact pivot?_of_equals (hOther.kind_of_marksOf (by decide) rfl hMarks)
  | call callee =>
    exact ⟨.call callee, trivial, marksOf_call hPivot, fun _ _ => pivot?_of_marksOf_call⟩

theorem NoPivot.of_marks {tokens others : List Token} (h : NoPivot tokens)
    (hLexical : AllLexical tokens) (hOthers : AllLexical others)
    (hMarks : Token.marks others = Token.marks tokens) : NoPivot others := by
  intro other hOther
  rw [Option.eq_none_iff_forall_ne_some]
  intro pivot hPivot
  obtain ⟨mark, hSign, hOtherMarks, hSame⟩ := marksOf_of_pivot? (hOthers other hOther) hPivot
  have hMem : mark ∈ Token.marks tokens := by
    rw [← hMarks]
    exact List.mem_flatMap.mpr ⟨other, hOther, by simp [hOtherMarks]⟩
  obtain ⟨token, hToken, hMem⟩ := List.mem_flatMap.mp hMem
  have hTokenMarks := (hLexical token hToken).marksOf_sign hSign hMem
  have hFound := hSame token (hLexical token hToken) hTokenMarks
  rw [h token hToken] at hFound
  cases hFound

theorem stringify_congr {a b : List Token} (h : Token.marks a = Token.marks b) :
    stringify a = stringify b := by
  rw [← chars_marks, ← chars_marks, h]

theorem attach_congr {a b : List Token} (ha : AllLexical a)
    (hb : AllLexical b) (h : Token.marks a = Token.marks b) (call : Expr) :
    attach a call = attach b call := by
  have hEmpty : a.isEmpty = b.isEmpty := by
    rw [Bool.eq_iff_iff, List.isEmpty_iff, List.isEmpty_iff]
    constructor
    · rintro rfl
      exact eq_nil_of_marks hb h.symm
    · rintro rfl
      exact eq_nil_of_marks ha h
  rw [attach, attach, hEmpty, stringify_congr h]

theorem Reads.ends_closed {tokens : List Token} {e : Expr} (h : Reads .call tokens e) :
    ∃ before close, tokens = before ++ [close] ∧ close.kind = .closeParen := by
  cases h with
  | @sum before _ _ _ tokens keyword _ _ _ _ _ _ _ _ hTokens _ _ _ =>
    obtain ⟨_, _, hClose⟩ := hTokens
    rename_i paren close inside _ _
    exact ⟨before ++ keyword :: paren :: inside, close, by simp, hClose⟩
  | @fraction before _ _ tokens keyword _ _ _ _ _ _ hTokens _ _ =>
    obtain ⟨_, _, hClose⟩ := hTokens
    rename_i paren close inside _ _
    exact ⟨before ++ keyword :: paren :: inside, close, by simp, hClose⟩

theorem not_isOperator_of_marks {token other : Token} {tokens others : List Token}
    (hToken : token.Lexical) (hOther : other.Lexical) (h : ¬ IsOperator token)
    (hMarks : Token.marks (other :: others) = Token.marks (token :: tokens)) :
    ¬ IsOperator other := by
  -- a sign at the start of both lists is the first token of both
  have hCarry : ∀ (c : Char) (kind : Kind), (Mark.char c).IsSign → operator? c = some kind →
      other.kind = kind → token.kind = kind := by
    intro c kind hSign hOperator hKind
    have hFirst : other.marksOf = [.char c] := hOther.marksOf_operator (hKind ▸ hOperator)
    obtain ⟨mark, rest, hRest⟩ := List.exists_cons_of_ne_nil hToken.marksOf_ne_nil
    rw [marks_cons, marks_cons, hFirst, hRest] at hMarks
    obtain ⟨rfl, _⟩ := List.cons.inj hMarks
    have hWhole := hToken.marksOf_sign hSign (by simp [hRest])
    exact hToken.kind_of_marksOf hSign hOperator hWhole
  rintro (hPlus | hEquals)
  · exact h (Or.inl (hCarry '+' .plus (by decide) rfl hPlus))
  · exact h (Or.inr (hCarry '=' .equals (by decide) rfl hEquals))

/-- The rules for calls carry over once their arguments do. -/
theorem exists_call_of_marks {before tokens others : List Token} {keyword : Token}
    {callee : Callee} {groups : List (List Token)} (hBefore : NoPivot before)
    (hKeyword : pivot? keyword = some (.call callee)) (hTokens : Enclosed groups tokens)
    (hLexical : AllLexical (before ++ keyword :: tokens))
    (hOthers : AllLexical others)
    (hMarks : Token.marks others = Token.marks (before ++ keyword :: tokens)) :
    ∃ before' keyword' tokens' groups', others = before' ++ keyword' :: tokens' ∧
      NoPivot before' ∧ (∀ call, attach before' call = attach before call) ∧
      pivot? keyword' = some (.call callee) ∧ Enclosed groups' tokens' ∧
      groups'.map Token.marks = groups.map Token.marks := by
  have hSign : (Mark.call callee).IsSign := trivial
  rw [marks_append, marks_cons, marksOf_call hKeyword] at hMarks
  obtain ⟨before', keyword', tokens', rfl, hLeft, hSame, hRight⟩ :=
    exists_cut hOthers hSign hMarks
  obtain ⟨groups', hEnclosed, hGroups⟩ :=
    hTokens.of_marks hLexical.right.rest hOthers.right.rest hRight
  exact ⟨before', keyword', tokens', groups', rfl,
    hBefore.of_marks hLexical.left hOthers.left hLeft,
    attach_congr hOthers.left hLexical.left hLeft, pivot?_of_marksOf_call hSame, hEnclosed, hGroups⟩

theorem Reads.of_marks {form : Form} {tokens : List Token} {e : Expr} (h : Reads form tokens e)
    (hLexical : AllLexical tokens) {others : List Token}
    (hOthers : AllLexical others)
    (hMarks : Token.marks others = Token.marks tokens) : Reads form others e := by
  induction h generalizing others with
  | identifier hBefore =>
    rw [← stringify_congr hMarks]
    exact .identifier (hBefore.of_marks hLexical hOthers hMarks)
  | @sum before lower upper body tokens _ l u b _ _ _ hBefore hKeyword hTokens _ _ _ ihl ihu ihb =>
    obtain ⟨before', keyword', tokens', groups', rfl, hNone, hAttach, hCall, hEnclosed, hGroups⟩ :=
      exists_call_of_marks hBefore hKeyword hTokens hLexical hOthers hMarks
    have hOld := lexical_of_enclosed hTokens hLexical.right.rest
    have hNew := lexical_of_enclosed hEnclosed hOthers.right.rest
    obtain ⟨lower', upper', body', rfl⟩ : ∃ a b c, groups' = [a, b, c] := by
      have := congrArg List.length hGroups
      simp only [List.length_map, List.length_cons, List.length_nil] at this
      exact List.length_eq_three.mp this
    simp only [List.map_cons, List.map_nil, List.cons.injEq, and_true] at hGroups
    obtain ⟨hLower, hUpper, hBody⟩ := hGroups
    rw [← hAttach]
    exact .sum hNone hCall hEnclosed (ihl (hOld _ (by simp)) (hNew _ (by simp)) hLower)
      (ihu (hOld _ (by simp)) (hNew _ (by simp)) hUpper)
      (ihb (hOld _ (by simp)) (hNew _ (by simp)) hBody)
  | @fraction before numerator denominator tokens _ n d _ _ hBefore hKeyword hTokens _ _ ihn ihd =>
    obtain ⟨before', keyword', tokens', groups', rfl, hNone, hAttach, hCall, hEnclosed, hGroups⟩ :=
      exists_call_of_marks hBefore hKeyword hTokens hLexical hOthers hMarks
    have hOld := lexical_of_enclosed hTokens hLexical.right.rest
    have hNew := lexical_of_enclosed hEnclosed hOthers.right.rest
    obtain ⟨numerator', denominator', rfl⟩ : ∃ a b, groups' = [a, b] := by
      have := congrArg List.length hGroups
      simp only [List.length_map, List.length_cons, List.length_nil] at this
      exact List.length_eq_two.mp this
    simp only [List.map_cons, List.map_nil, List.cons.injEq, and_true] at hGroups
    obtain ⟨hNumerator, hDenominator⟩ := hGroups
    rw [← hAttach]
    exact .fraction hNone hCall hEnclosed (ihn (hOld _ (by simp)) (hNew _ (by simp)) hNumerator)
      (ihd (hOld _ (by simp)) (hNew _ (by simp)) hDenominator)
  | plus hForm _ hOperator _ ihl ihr =>
    obtain ⟨left', sign, right', rfl, hKind, hLeft, hRight⟩ :=
      exists_operator_of_marks (c := '+') (by decide) rfl hOperator hLexical hOthers hMarks
    exact .plus hForm (ihl hLexical.left hOthers.left hLeft) hKind
      (ihr hLexical.right.rest hOthers.right.rest hRight)
  | equation hForm _ hOperator _ ihl ihr =>
    obtain ⟨left', sign, right', rfl, hKind, hLeft, hRight⟩ :=
      exists_operator_of_marks (c := '=') (by decide) rfl hOperator hLexical hOthers hMarks
    exact .equation hForm (ihl hLexical.left hOthers.left hLeft) hKind
      (ihr hLexical.right.rest hOthers.right.rest hRight)
  | @juxtapose left right first _ _ _ hLeft hFirst _ ihl ihr =>
    -- the call on the left ends in a parenthesis, where the other list is cut as well
    obtain ⟨before, close, rfl, hClose⟩ := hLeft.ends_closed
    have hCut : Token.marks others = Token.marks (before ++ close :: first :: right) := by
      rw [hMarks, List.append_assoc, List.singleton_append]
    have hCutLexical : AllLexical (before ++ close :: first :: right) := by
      rwa [List.append_assoc, List.singleton_append] at hLexical
    obtain ⟨before', close', rest, rfl, hKind, hBefore, hRest⟩ :=
      exists_operator_of_marks (c := ')') (by decide) rfl hClose hCutLexical hOthers hCut
    have hNewLeft : AllLexical (before' ++ [close']) := by
      have hAll := hOthers
      rw [← List.singleton_append, ← List.append_assoc] at hAll
      exact hAll.left
    have hLeftMarks : Token.marks (before' ++ [close']) = Token.marks (before ++ [close]) := by
      rw [hNewLeft.marks_operator (c := ')') (by rw [hKind]; rfl),
        hLexical.left.marks_operator (c := ')') (by rw [hClose]; rfl), hBefore]
    have hRestLexical := hOthers.right.rest
    cases rest with
    | nil =>
      have hEmpty := eq_nil_of_marks hLexical.right hRest.symm
      cases hEmpty
    | cons first' right' =>
      have hFirst' := not_isOperator_of_marks hLexical.right.first hRestLexical.first hFirst hRest
      have hNew := Reads.juxtapose (ihl hLexical.left hNewLeft hLeftMarks) hFirst'
        (ihr hLexical.right hRestLexical hRest)
      rwa [List.append_assoc, List.singleton_append] at hNew

end Expr

theorem Equation.parse_of_marks {tokens others : List Token} {e : Equation}
    (h : Equation.parse tokens = .ok e) (hLexical : Token.AllLexical tokens)
    (hOthers : Token.AllLexical others) (hMarks : Token.marks others = Token.marks tokens) :
    Equation.parse others = .ok e := by
  obtain ⟨left, sign, right, rfl, hKind, hLevel, hNone, hLeft, hRight⟩ :=
    Equation.parse_eq_ok_iff.mp h
  have hSign : (Mark.char '=').IsSign := by decide
  obtain ⟨left', sign', right', rfl, hSame, hLeftMarks, hRightMarks⟩ :=
    Token.exists_operator_of_marks hSign rfl hKind hLexical hOthers hMarks
  obtain ⟨_, hLeft⟩ := Expr.reads_of_parse hLeft
  obtain ⟨_, hRight⟩ := Expr.reads_of_parse hRight
  refine Equation.parse_eq_ok_iff.mpr ⟨left', sign', right', rfl, hSame, ?_, ?_, ?_, ?_⟩
  · rw [Token.nesting_congr hOthers.left hLexical.left hLeftMarks, hLevel]
  · exact hNone.of_marks hLexical.left hOthers.left hLeftMarks hSign rfl
  · exact (hLeft.of_marks hLexical.left hOthers.left hLeftMarks).parsed.parse
  · exact (hRight.of_marks hLexical.right.rest hOthers.right.rest hRightMarks).parsed.parse

end ProseMath
