import Mathlib.Data.List.Induction
import Mathlib.Data.List.Infix
import Mathlib.Order.Bounds.Basic
import Mathlib.Tactic.Common
import ProseMath.Proofs.Token.Nesting
import ProseMath.Token.Scan

/-!
# Groups between parentheses

The search for a closing parenthesis and the cut at commas each count parentheses on their own, and
the count of the cut may become negative. Between a parenthesis and its partner it never does: what
stands there is a list of groups that are balanced each by itself.

* `balanced_iff_prefixes`: parentheses balance if no initial piece closes more than it opens.
* `CommaSeparated.argumentList`, `ArgumentList.commaSeparated`, `ArgumentList.balanced`: argument
  lists are balanced groups with commas between them.
* `matchingParen?_eq_some_iff`: a partner is the first token up to which more is closed than opened.
* `matchingParen?_encloses_groups`: the groups between a parenthesis and its partner.
-/

namespace ProseMath.Token

/-! ## Balanced groups -/

/-- Groups of tokens, and the tokens that they make up with a comma between any two. -/
inductive CommaSeparated : List (List Token) → List Token → Prop
  | one (group : List Token) : CommaSeparated [group] group
  | more (group : List Token) {comma : Token} {groups : List (List Token)} {tokens : List Token}
    (hComma : comma.kind = .comma) (hRest : CommaSeparated groups tokens) :
    CommaSeparated (group :: groups) (group ++ comma :: tokens)

theorem nesting_concat (tokens : List Token) (token : Token) :
    nesting (tokens ++ [token]) = nesting tokens + turn token := by
  induction tokens with
  | nil => exact Int.add_comm _ _
  | cons first tokens ih => rw [List.cons_append, nesting_cons, nesting_cons, ih, Int.add_assoc]

/-- A closing parenthesis has a partner in front of it as long as no initial piece closes more
parentheses than it opens. -/
theorem eachAt_closeParen_iff {tokens : List Token} :
    EachAt .closeParen (0 < ·) 0 tokens ↔ ∀ before, before <+: tokens → 0 ≤ nesting before := by
  constructor
  · intro h before hBefore
    induction before using List.reverseRecOn with
    | nil => exact Int.le_refl 0
    | append_singleton before token ih =>
      obtain ⟨after, hTokens⟩ := hBefore
      rw [List.append_assoc, List.singleton_append] at hTokens
      have hLevel := ih ⟨token :: after, hTokens⟩
      rw [nesting_concat]
      by_cases hClose : token.kind = .closeParen
      · have := h before token after hTokens.symm hClose
        rw [turn_closed hClose]
        omega
      · have hTurn : 0 ≤ turn token := by
          rw [turn, if_neg hClose]
          split <;> decide
        omega
  · rintro h before token after rfl hClose
    have hPiece : before ++ [token] <+: before ++ token :: after := ⟨after, by simp⟩
    have hLevel := h _ hPiece
    rw [nesting_concat, turn_closed hClose] at hLevel
    omega

theorem balanced_iff_prefixes {tokens : List Token} :
    Balanced 0 tokens ↔ (∀ before, before <+: tokens → 0 ≤ nesting before) ∧ nesting tokens = 0 ∧
      EachAt .comma (· ≠ 0) 0 tokens := by
  rw [← eachAt_closeParen_iff]
  constructor
  · rintro ⟨hLevel, hClosing, hCommas⟩
    exact ⟨hClosing, by omega, hCommas⟩
  · rintro ⟨hClosing, hLevel, hCommas⟩
    exact ⟨by omega, hClosing, hCommas⟩

section ArgumentList

variable {groups : List (List Token)} {tokens : List Token}

theorem CommaSeparated.argumentList (h : CommaSeparated groups tokens)
    (hGroups : ∀ group ∈ groups, Balanced 0 group) : ArgumentList 0 groups tokens := by
  induction h with
  | one group => exact .one (isArgument_iff.mpr (hGroups group List.mem_cons_self))
  | more group hComma _ ih =>
    obtain ⟨hGroup, hGroups⟩ := List.forall_mem_cons.mp hGroups
    exact .more (isArgument_iff.mpr hGroup) hComma (ih hGroups)

theorem ArgumentList.commaSeparated {depth : Nat} (h : ArgumentList depth groups tokens) :
    CommaSeparated groups tokens := by
  induction h with
  | one _ => exact .one _
  | more _ hComma _ ih => exact .more _ hComma ih

theorem ArgumentList.balanced (h : ArgumentList 0 groups tokens) :
    ∀ group ∈ groups, Balanced 0 group := by
  -- only the first group can stand behind open parentheses
  generalize hDepth : 0 = depth at h
  induction h with
  | one hGroup =>
    subst hDepth
    exact List.forall_mem_singleton.mpr (isArgument_iff.mp hGroup)
  | more hGroup _ _ ih =>
    subst hDepth
    exact List.forall_mem_cons.mpr ⟨isArgument_iff.mp hGroup, ih rfl⟩

end ArgumentList

/-! ## Partners -/

section Partner

variable {tokens : List Token} {index : Nat}

theorem nesting_take_succ {token : Token} (h : tokens[index]? = some token) :
    nesting (tokens.take (index + 1)) = nesting (tokens.take index) + turn token := by
  rw [List.take_add_one, h]
  exact nesting_concat _ token

/-- The first closing parenthesis without a partner in front of it is where, for the first time,
more has been closed than opened. -/
theorem closing?_zero_eq_some_iff :
    closing? 0 tokens = some index ↔ index < tokens.length ∧
      nesting (tokens.take (index + 1)) < 0 ∧ ∀ k < index, 0 ≤ nesting (tokens.take (k + 1)) := by
  rw [closing?_eq_some_iff]
  constructor
  · rintro ⟨hKind, hLevel, hAbove⟩
    obtain ⟨token, hToken, hClose⟩ := Option.map_eq_some_iff.mp hKind
    refine ⟨(List.getElem?_eq_some_iff.mp hToken).1, ?_, fun k hk => ?_⟩
    · rw [nesting_take_succ hToken, turn_closed hClose]
      omega
    · have := hAbove (k + 1) hk
      omega
  · rintro ⟨hIndex, hBelow, hAbove⟩
    have hLevels : ∀ k ≤ index, 0 ≤ nesting (tokens.take k) := by
      intro k hk
      cases k with
      | zero => exact Int.le_refl 0
      | succ k => exact hAbove k hk
    have hBefore := hLevels index (Nat.le_refl index)
    have hToken := List.getElem?_eq_getElem hIndex
    rw [nesting_take_succ hToken] at hBelow
    -- only a closing parenthesis brings the nesting below zero, and by one only
    have hClose : tokens[index].kind = .closeParen := by
      by_contra hOther
      have hTurn : 0 ≤ turn tokens[index] := by
        rw [turn, if_neg hOther]
        split <;> decide
      omega
    rw [turn_closed hClose] at hBelow
    refine ⟨by rw [hToken, Option.map_some, hClose], by omega, fun k hk => ?_⟩
    have := hLevels k hk
    omega

theorem matchingParen?_eq_some_iff {close : Nat} :
    matchingParen? tokens index = some close ↔
      IsLeast {i | index < i ∧ i < tokens.length ∧
        nesting (tokens.extract (index + 1) (i + 1)) < 0} close := by
  have hPiece (k : Nat) : tokens.extract (index + 1) (k + (index + 1) + 1) =
      (tokens.drop (index + 1)).take (k + 1) := by
    rw [List.extract_eq_take_drop]
    congr 1
    omega
  rw [matchingParen?, closingFrom?, Option.map_eq_some_iff]
  constructor
  · rintro ⟨k, hClosing, rfl⟩
    obtain ⟨hLength, hBelow, hAbove⟩ := closing?_zero_eq_some_iff.mp hClosing
    rw [List.length_drop] at hLength
    refine ⟨⟨by omega, by omega, hPiece k ▸ hBelow⟩, ?_⟩
    rintro i ⟨hAfter, hInside, hLevel⟩
    by_contra hEarlier
    obtain ⟨j, rfl⟩ : ∃ j, i = j + (index + 1) := ⟨i - (index + 1), by omega⟩
    rw [hPiece] at hLevel
    have := hAbove j (by omega)
    omega
  · rintro ⟨⟨hAfter, hInside, hLevel⟩, hLeast⟩
    obtain ⟨k, rfl⟩ : ∃ k, close = k + (index + 1) := ⟨close - (index + 1), by omega⟩
    rw [hPiece] at hLevel
    refine ⟨k, closing?_zero_eq_some_iff.mpr ⟨?_, hLevel, fun j hj => ?_⟩, rfl⟩
    · rw [List.length_drop]
      omega
    · by_contra hBelow
      have := hLeast ⟨by omega, by omega, (hPiece j).symm ▸ Int.not_le.mp hBelow⟩
      omega

end Partner

/-- The partner of a parenthesis is the first token behind it up to which more parentheses are
closed than opened. The tokens between the two are their groups joined by the commas that separate
them, and in each group the parentheses balance and no comma stands outside them. -/
theorem matchingParen?_encloses_groups {tokens : List Token} {index close : Nat}
    (h : matchingParen? tokens index = some close) :
    IsLeast {i | index < i ∧ i < tokens.length ∧
      nesting (tokens.extract (index + 1) (i + 1)) < 0} close ∧
    CommaSeparated (splitTopLevel .comma (tokens.extract (index + 1) close))
      (tokens.extract (index + 1) close) ∧
    ∀ group ∈ splitTopLevel .comma (tokens.extract (index + 1) close),
      (∀ before, before <+: group → 0 ≤ nesting before) ∧ nesting group = 0 ∧
        EachAt .comma (· ≠ 0) 0 group := by
  refine ⟨matchingParen?_eq_some_iff.mp h, ?_⟩
  obtain ⟨k, hClosing, rfl⟩ := Option.map_eq_some_iff.mp h
  obtain ⟨inside, paren, after, hTokens, rfl, _, hList⟩ := argumentList_of_closing? hClosing
  have hInside : tokens.extract (index + 1) (inside.length + (index + 1)) = inside := by
    rw [List.extract_eq_take_drop, hTokens, Nat.add_sub_cancel, List.take_left]
  rw [hInside]
  exact ⟨hList.commaSeparated, fun group hGroup =>
    balanced_iff_prefixes.mp (hList.balanced group hGroup)⟩

/-- In `f((a,b),c)+d` the first parenthesis encloses `(a,b)` and `c`. -/
theorem matchingParen?_encloses_groups_nested :
    matchingParen? (tokenize "f((a,b),c)+d".toList) 1 = some 9 ∧
      (splitTopLevel .comma ((tokenize "f((a,b),c)+d".toList).extract 2 9)).map stringify =
        ["(a,b)".toList, "c".toList] ∧
      ∀ group ∈ splitTopLevel .comma ((tokenize "f((a,b),c)+d".toList).extract 2 9),
        nesting group = 0 ∧ EachAt .comma (· ≠ 0) 0 group := by
  have hClose : matchingParen? (tokenize "f((a,b),c)+d".toList) 1 = some 9 := by decide +kernel
  obtain ⟨_, _, hGroups⟩ := matchingParen?_encloses_groups hClose
  exact ⟨hClose, by decide +kernel, fun group hGroup => (hGroups group hGroup).2⟩

end ProseMath.Token
