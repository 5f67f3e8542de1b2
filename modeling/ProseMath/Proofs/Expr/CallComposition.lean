import Mathlib.Data.List.Infix
import Mathlib.Tactic.Common
import ProseMath.Proofs.Expr.CallFault
import ProseMath.Proofs.Token.Grouping
import ProseMath.Token.Scan

/-!
# Calls are read argument by argument

A call is written as groups of tokens between parentheses, with commas between the groups. Whatever
stands in a group, it is found again as an argument, provided that its parentheses balance and that
its commas stand inside them.

* `parse_enclosed`, `parse_enclosed_error`: a call that nothing precedes and nothing follows.
* `parse_call_of_groups`: a call is made of what its groups are.
-/

namespace ProseMath

namespace Expr

/-! ## A call by itself -/

section Call

variable {callee : Callee} {keyword : Token} {groups : List (List Token)} {tokens : List Token}

theorem readCall_enclosed_error (h : Enclosed groups tokens)
    (hArity : groups.length ≠ callee.arity) :
    readCall callee keyword tokens =
      .error ⟨.wrongArity callee groups.length, some keyword.offset⟩ := by
  obtain ⟨hOpen, hInside, hClose⟩ := h
  rename_i paren close inside
  have hSplit : Token.splitTopLevel .comma inside = groups := hInside.splitAtDepth
  have hNone : Arguments.ofGroups? callee groups = none := by
    rw [Option.eq_none_iff_forall_ne_some]
    exact not_exists.mp (mt Arguments.exists_ofGroups?_iff.mp hArity)
  simp only [readCall, if_pos hOpen, hInside.closing? hClose, List.take_left, hSplit, hNone]

theorem splitPivot_keyword (hKeyword : pivot? keyword = some (.call callee)) :
    splitPivot (keyword :: tokens) = ([], some ⟨.call callee, keyword, tokens⟩) := by
  rw [splitPivot, hKeyword]

theorem parse_enclosed_error (hKeyword : pivot? keyword = some (.call callee))
    (h : Enclosed groups tokens) (hArity : groups.length ≠ callee.arity) :
    parse (keyword :: tokens) =
      .error ⟨.wrongArity callee groups.length, some keyword.offset⟩ :=
  parse_call_error (splitPivot_keyword hKeyword) (readCall_enclosed_error h hArity)

theorem parse_enclosed (arguments : Arguments) (hKeyword : pivot? keyword = some (.call callee))
    (h : Enclosed arguments.groups tokens)
    (hGroups : Arguments.ofGroups? callee arguments.groups = some arguments) :
    parse (keyword :: tokens) = parseArguments arguments := by
  have hRead : readCall callee keyword tokens = .ok (arguments, []) :=
    readCall_eq_ok_iff.mpr ⟨hGroups, tokens, h, (List.append_nil _).symm⟩
  rw [parse_call (splitPivot_keyword hKeyword) hRead]
  -- nothing is attached in front, and nothing follows
  exact bind_pure _

end Call

/-- A call of balanced groups is read group by group, whatever operators, commas and calls are
nested in them: the first group that fails gives the error. A wrong number of groups is reported
at the keyword. -/
theorem parse_call_of_groups {callee : Callee} {keyword paren close : Token}
    {groups : List (List Token)} {inside tokens : List Token}
    (hKind : keyword.kind = .identifier) (hText : keyword.text = callee.keyword)
    (hOpen : paren.kind = .openParen) (hClose : close.kind = .closeParen)
    (hInside : Token.CommaSeparated groups inside)
    (hPieces : ∀ group ∈ groups, ∀ before, before <+: group → 0 ≤ Token.nesting before)
    (hLevel : ∀ group ∈ groups, Token.nesting group = 0)
    (hCommas : ∀ group ∈ groups, Token.EachAt .comma (· ≠ 0) 0 group)
    (hTokens : tokens = keyword :: paren :: (inside ++ [close])) :
    (groups.length ≠ callee.arity → ∃ e, parse tokens = .error e ∧
      e.fault.kind = .malformedCall ∧ e.offset = some keyword.offset ∧
      e.fault = .wrongArity callee groups.length) ∧
    (∀ lower upper body, callee = .sum → groups = [lower, upper, body] →
      parse tokens = do return .sum (← parse lower) (← parse upper) (← parse body)) ∧
    (∀ numerator denominator, callee = .frac → groups = [numerator, denominator] →
      parse tokens = do return .fraction (← parse numerator) (← parse denominator)) := by
  subst hTokens
  have hKeyword : pivot? keyword = some (.call callee) := pivot?_eq_call_iff.mpr ⟨hKind, hText⟩
  have hBalanced : ∀ group ∈ groups, Token.Balanced 0 group := by
    intro group hGroup
    exact Token.balanced_iff_prefixes.mpr
      ⟨hPieces group hGroup, hLevel group hGroup, hCommas group hGroup⟩
  have hEnclosed : Enclosed groups (paren :: (inside ++ [close])) :=
    .intro hOpen (hInside.argumentList hBalanced) hClose
  refine ⟨?_, ?_, ?_⟩
  · intro hArity
    exact ⟨_, parse_enclosed_error hKeyword hEnclosed hArity, rfl, rfl, rfl⟩
  · rintro lower upper body rfl rfl
    exact parse_enclosed (.sum lower upper body) hKeyword hEnclosed rfl
  · rintro numerator denominator rfl rfl
    exact parse_enclosed (.frac numerator denominator) hKeyword hEnclosed rfl

/-- In `frac(f(a,b)+1,)` the comma of the inner parentheses does not separate, and the second group
is empty. -/
theorem parse_call_of_groups_nested :
    parse (tokenize "frac(f(a,b)+1,)".toList) =
      .ok (.fraction (.plus (.identifier "f(a,b)".toList) (.identifier ['1'])) (.identifier [])) := by
  let first : List Token :=
    [⟨.identifier, ['f'], 5, []⟩, ⟨.openParen, ['('], 6, []⟩, ⟨.identifier, ['a'], 7, []⟩,
      ⟨.comma, [','], 8, []⟩, ⟨.identifier, ['b'], 9, []⟩, ⟨.closeParen, [')'], 10, []⟩,
      ⟨.plus, ['+'], 11, []⟩, ⟨.number, ['1'], 12, []⟩]
  have hTokens : tokenize "frac(f(a,b)+1,)".toList =
      ⟨.identifier, "frac".toList, 0, []⟩ :: ⟨.openParen, ['('], 4, []⟩ ::
        ((first ++ ⟨.comma, [','], 13, []⟩ :: []) ++ [⟨.closeParen, [')'], 14, []⟩]) := by
    decide +kernel
  have hClosing : Token.EachAt .closeParen (0 < ·) 0 first := by
    simp [first, Token.eachAt_cons, Token.eachAt_nil, Token.turn]
  have hCommas : Token.EachAt .comma (· ≠ 0) 0 first := by
    simp [first, Token.eachAt_cons, Token.eachAt_nil, Token.turn]
  have hSign : splitPivot first =
      (first.take 6, some ⟨.plus, ⟨.plus, ['+'], 11, []⟩, first.drop 7⟩) := rfl
  have hPlain : splitPivot (first.drop 7) = (first.drop 7, none) := rfl
  have hGroups {property : List Token → Prop} (hOne : property first) (hTwo : property []) :
      ∀ group ∈ [first, []], property group :=
    List.forall_mem_cons.mpr ⟨hOne, List.forall_mem_singleton.mpr hTwo⟩
  obtain ⟨_, _, hFraction⟩ := parse_call_of_groups rfl (rfl : _ = Callee.frac.keyword) rfl rfl
    (.more first rfl (.one []))
    (hGroups (Token.eachAt_closeParen_iff.mp hClosing)
      (Token.eachAt_closeParen_iff.mp Token.eachAt_nil))
    (hGroups rfl rfl) (hGroups hCommas Token.eachAt_nil) hTokens
  rw [hFraction first [] rfl rfl, parse_plus hSign, parse_plain hPlain, parse_plain rfl]
  rfl

end Expr

end ProseMath
