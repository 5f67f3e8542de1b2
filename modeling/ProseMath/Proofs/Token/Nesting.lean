import Mathlib.Tactic.Common
import ProseMath.Proofs.Token.Argument

/-!
# Nesting

The nesting of a token list is the number of its opening parentheses less the number of its closing
ones. The functions that follow parentheses token by token are described by the nesting of initial
pieces of the list.

* `closing?_eq_some_iff`: a parenthesis closes others if it is the first before which the nesting
  has gone down far enough.
* `length_splitAtDepth`: there is one group more than separators at nesting zero.
* `isArgument_iff`: in an argument all parentheses balance and no comma stands outside them.
* `splitEquals?_eq_some_iff`: an equation is cut at its first equals sign at nesting zero.
-/

namespace ProseMath.Token

/-- How a token changes the nesting. -/
def turn (token : Token) : Int :=
  if token.kind = .openParen then 1 else if token.kind = .closeParen then -1 else 0

/-- Opening less closing parentheses. -/
def nesting (tokens : List Token) : Int := tokens.foldr (fun token level => turn token + level) 0

theorem nesting_cons (token : Token) (tokens : List Token) :
    nesting (token :: tokens) = turn token + nesting tokens := rfl

theorem turn_opened {token : Token} (h : token.kind = .openParen) : turn token = 1 := if_pos h

theorem turn_closed {token : Token} (h : token.kind = .closeParen) : turn token = -1 :=
  (if_neg (by simp [h])).trans (if_pos h)

theorem turn_other {token : Token} (hOpen : token.kind ≠ .openParen)
    (hClose : token.kind ≠ .closeParen) : turn token = 0 :=
  (if_neg hOpen).trans (if_neg hClose)

/-! ## Closing parentheses -/

/-- The parenthesis at an index closes one that stands before the list, where `depth` others have
been opened in between. -/
structure ClosesAt (depth : Int) (tokens : List Token) (index : Nat) : Prop where
  kind : (tokens[index]?).map Token.kind = some .closeParen
  level : depth + nesting (tokens.take index) = 0
  above : ∀ k ≤ index, 0 ≤ depth + nesting (tokens.take k)

theorem closesAt_cons_succ {depth : Int} {token : Token} {rest : List Token} {index : Nat} :
    ClosesAt depth (token :: rest) (index + 1) ↔
      0 ≤ depth ∧ ClosesAt (depth + turn token) rest index := by
  constructor
  · rintro ⟨hKind, hLevel, hAbove⟩
    refine ⟨by simpa [nesting] using hAbove 0 (by omega), hKind, ?_, ?_⟩
    · rw [List.take_succ_cons, nesting_cons] at hLevel
      omega
    · intro k hk
      have := hAbove (k + 1) (by omega)
      rw [List.take_succ_cons, nesting_cons] at this
      omega
  · rintro ⟨hDepth, hKind, hLevel, hAbove⟩
    refine ⟨hKind, ?_, ?_⟩
    · rw [List.take_succ_cons, nesting_cons]
      omega
    · intro k hk
      cases k with
      | zero => simpa [nesting] using hDepth
      | succ k =>
        have := hAbove k (by omega)
        rw [List.take_succ_cons, nesting_cons]
        omega

theorem closesAt_zero {depth : Int} {tokens : List Token} :
    ClosesAt depth tokens 0 ↔ (tokens.head?).map Token.kind = some .closeParen ∧ depth = 0 := by
  constructor
  · rintro ⟨hKind, hLevel, _⟩
    rw [← List.head?_eq_getElem?] at hKind
    exact ⟨hKind, by simpa [nesting] using hLevel⟩
  · rintro ⟨hKind, rfl⟩
    refine ⟨by rw [← List.head?_eq_getElem?]; exact hKind, by simp [nesting], ?_⟩
    intro k hk
    simp [Nat.le_zero.mp hk, nesting]

theorem closing?_eq_some_iff {depth : Nat} {tokens : List Token} {index : Nat} :
    closing? depth tokens = some index ↔ ClosesAt depth tokens index := by
  induction tokens generalizing depth index with
  | nil =>
    constructor
    · intro h
      cases h
    · rintro ⟨hKind, _, _⟩
      simp at hKind
  | cons token rest ih =>
    have hMap : ∀ d : Nat, (closing? d rest).map (· + 1) = some index ↔
        ∃ i, index = i + 1 ∧ ClosesAt d rest i := by
      intro d
      simp only [Option.map_eq_some_iff, ih]
      constructor
      · rintro ⟨i, hi, rfl⟩
        exact ⟨i, rfl, hi⟩
      · rintro ⟨i, rfl, hi⟩
        exact ⟨i, hi, rfl⟩
    -- behind the first token both sides go on in the same way
    have hStep : token.kind ≠ .closeParen ∨ depth ≠ 0 → ∀ d : Nat, (d : Int) = depth + turn token →
        ((closing? d rest).map (· + 1) = some index ↔ ClosesAt depth (token :: rest) index) := by
      intro hNot d hd
      rw [hMap]
      cases index with
      | zero =>
        constructor
        · rintro ⟨i, hi, _⟩
          cases hi
        · intro h
          obtain ⟨hKind, hDepth⟩ := closesAt_zero.mp h
          rcases hNot with hNot | hNot
          · exact absurd (by simpa using hKind) hNot
          · exact absurd (by omega) hNot
      | succ i =>
        rw [closesAt_cons_succ, ← hd]
        constructor
        · rintro ⟨j, hj, h⟩
          cases hj
          exact ⟨by omega, h⟩
        · rintro ⟨_, h⟩
          exact ⟨i, rfl, h⟩
    by_cases hOpen : token.kind = .openParen
    · rw [closing?_opened depth rest hOpen]
      exact hStep (Or.inl (by simp [hOpen])) (depth + 1) (by rw [turn_opened hOpen]; omega)
    · by_cases hClose : token.kind = .closeParen
      · cases depth with
        | zero =>
          rw [closing?_closed_zero rest hClose]
          constructor
          · intro h
            cases h
            exact closesAt_zero.mpr ⟨by simp [hClose], rfl⟩
          · intro h
            cases index with
            | zero => rfl
            | succ i =>
              -- the depth would become negative
              obtain ⟨_, _, _, hAbove⟩ := closesAt_cons_succ.mp h
              have := hAbove 0 (by omega)
              rw [turn_closed hClose] at this
              simp [nesting] at this
        | succ depth =>
          rw [closing?_closed_succ depth rest hClose]
          exact hStep (Or.inr (by omega)) depth (by rw [turn_closed hClose]; omega)
      · rw [closing?_other depth rest hOpen hClose]
        exact hStep (Or.inl hClose) depth (by rw [turn_other hOpen hClose]; omega)

/-! ## Tokens of a kind and the nesting before them -/

/-- All tokens of a kind stand at a nesting with a property, where the list starts at `depth`. -/
def EachAt (kind : Kind) (property : Int → Prop) (depth : Int) (tokens : List Token) : Prop :=
  ∀ before token after, tokens = before ++ token :: after → token.kind = kind →
    property (depth + nesting before)

section EachAt

variable {kind : Kind} {property : Int → Prop} {depth : Int}

theorem eachAt_nil : EachAt kind property depth [] := by
  intro before token after h
  simp at h

theorem eachAt_cons {token : Token} {rest : List Token} :
    EachAt kind property depth (token :: rest) ↔
      (token.kind = kind → property depth) ∧ EachAt kind property (depth + turn token) rest := by
  constructor
  · intro h
    refine ⟨fun hKind => by simpa [nesting] using h [] token rest rfl hKind, ?_⟩
    rintro before other after rfl hKind
    have := h (token :: before) other after rfl hKind
    rwa [nesting_cons, ← Int.add_assoc] at this
  · rintro ⟨hFirst, hRest⟩ before other after hTokens hKind
    cases before with
    | nil =>
      obtain ⟨rfl, rfl⟩ := List.cons.inj hTokens
      simpa [nesting] using hFirst hKind
    | cons first before =>
      obtain ⟨rfl, rfl⟩ := List.cons.inj hTokens
      have := hRest before other after rfl hKind
      rwa [nesting_cons, ← Int.add_assoc]

end EachAt

/-! ## Counting separators -/

/-- How many tokens of a kind stand at nesting zero, where the list starts at `depth`. -/
def countAt (kind : Kind) (depth : Int) (tokens : List Token) : Nat :=
  (List.range tokens.length).countP fun k =>
    (tokens[k]?).map Token.kind = some kind ∧ depth + nesting (tokens.take k) = 0

theorem countAt_cons {kind : Kind} {depth : Int} {token : Token} {rest : List Token} :
    countAt kind depth (token :: rest) =
      (if token.kind = kind ∧ depth = 0 then 1 else 0) +
        countAt kind (depth + turn token) rest := by
  have hRest : (fun k => decide (((token :: rest)[k]?).map Token.kind = some kind ∧
      depth + nesting ((token :: rest).take k) = 0)) ∘ Nat.succ = fun k =>
        decide ((rest[k]?).map Token.kind = some kind ∧
          depth + turn token + nesting (rest.take k) = 0) := by
    funext k
    rw [Function.comp, decide_eq_decide, List.getElem?_cons_succ, List.take_succ_cons, nesting_cons,
      Int.add_assoc]
  rw [countAt, countAt, List.length_cons, List.range_succ_eq_map, List.countP_cons,
    List.countP_map, hRest, Nat.add_comm]
  simp [nesting]

theorem splitAtDepth_ne_nil (separator : Kind) (depth : Int) (tokens : List Token) :
    splitAtDepth separator depth tokens ≠ [] := by
  have hGroup : ∀ token groups, consGroup token groups ≠ [] := by
    intro token groups
    cases groups <;> simp [consGroup]
  cases tokens with
  | nil => simp [splitAtDepth]
  | cons token rest =>
    rw [splitAtDepth]
    split
    · exact hGroup _ _
    · split
      · exact hGroup _ _
      · split
        · simp
        · exact hGroup _ _

theorem length_splitAtDepth {separator : Kind} (hOpen : separator ≠ .openParen)
    (hClose : separator ≠ .closeParen) (depth : Int) (tokens : List Token) :
    (splitAtDepth separator depth tokens).length = countAt separator depth tokens + 1 := by
  have hGroup : ∀ token depth tokens,
      (consGroup token (splitAtDepth separator depth tokens)).length =
        (splitAtDepth separator depth tokens).length := by
    intro token depth tokens
    cases hSplit : splitAtDepth separator depth tokens with
    | nil => exact absurd hSplit (splitAtDepth_ne_nil _ _ _)
    | cons group groups => rfl
  induction tokens generalizing depth with
  | nil => rfl
  | cons token rest ih =>
    rw [splitAtDepth, countAt_cons]
    by_cases hOpenKind : token.kind = .openParen
    · rw [if_pos hOpenKind, hGroup, ih, turn_opened hOpenKind, hOpenKind,
        if_neg fun h => hOpen h.1.symm, Nat.zero_add]
    · rw [if_neg hOpenKind]
      by_cases hCloseKind : token.kind = .closeParen
      · rw [if_pos hCloseKind, hGroup, ih, turn_closed hCloseKind, hCloseKind,
          if_neg fun h => hClose h.1.symm, Nat.zero_add]
        rfl
      · rw [if_neg hCloseKind, turn_other hOpenKind hCloseKind, Int.add_zero]
        by_cases hSeparator : token.kind = separator ∧ depth = 0
        · rw [if_pos hSeparator, if_pos hSeparator, List.length_cons, ih, Nat.add_comm 1]
        · rw [if_neg hSeparator, if_neg hSeparator, hGroup, ih, Nat.zero_add]

/-! ## Arguments -/

/-- The parentheses balance, and no comma stands outside them. -/
structure Balanced (depth : Int) (tokens : List Token) : Prop where
  level : depth + nesting tokens = 0
  closing : EachAt .closeParen (0 < ·) depth tokens
  commas : EachAt .comma (· ≠ 0) depth tokens

theorem isArgument_iff {depth : Nat} {tokens : List Token} :
    IsArgument depth tokens ↔ Balanced depth tokens := by
  constructor
  · intro h
    induction h with
    | nil => exact ⟨rfl, eachAt_nil, eachAt_nil⟩
    | @opened depth token rest hKind _ ih =>
      have hDepth : (depth : Int) + turn token = (depth + 1 : Nat) := by
        rw [turn_opened hKind]
        rfl
      refine ⟨?_, eachAt_cons.mpr ⟨by simp [hKind], hDepth ▸ ih.closing⟩,
        eachAt_cons.mpr ⟨by simp [hKind], hDepth ▸ ih.commas⟩⟩
      rw [nesting_cons, ← Int.add_assoc, hDepth, ih.level]
    | @closed depth token rest hKind _ ih =>
      have hDepth : ((depth + 1 : Nat) : Int) + turn token = depth := by
        rw [turn_closed hKind]
        omega
      refine ⟨?_, eachAt_cons.mpr ⟨fun _ => by omega, hDepth ▸ ih.closing⟩,
        eachAt_cons.mpr ⟨by simp [hKind], hDepth ▸ ih.commas⟩⟩
      rw [nesting_cons, ← Int.add_assoc, hDepth, ih.level]
    | @other depth token rest hOpen hClose hComma _ ih =>
      have hDepth : (depth : Int) + turn token = depth := by
        rw [turn_other hOpen hClose]
        omega
      refine ⟨?_, eachAt_cons.mpr ⟨fun h => absurd h hClose, hDepth.symm ▸ ih.closing⟩,
        eachAt_cons.mpr ⟨fun h => ?_, hDepth.symm ▸ ih.commas⟩⟩
      · rw [nesting_cons, ← Int.add_assoc, hDepth, ih.level]
      · have := hComma h
        omega
  · intro h
    induction tokens generalizing depth with
    | nil =>
      have hLevel := h.level
      simp only [nesting, List.foldr_nil] at hLevel
      obtain rfl : depth = 0 := by omega
      exact .nil
    | cons token rest ih =>
      obtain ⟨hLevel, hClosing, hCommas⟩ := h
      obtain ⟨hClose, hClosing⟩ := eachAt_cons.mp hClosing
      obtain ⟨hComma, hCommas⟩ := eachAt_cons.mp hCommas
      rw [nesting_cons, ← Int.add_assoc] at hLevel
      by_cases hOpen : token.kind = .openParen
      · rw [turn_opened hOpen] at hLevel hClosing hCommas
        exact .opened hOpen (ih ⟨hLevel, hClosing, hCommas⟩)
      · by_cases hKind : token.kind = .closeParen
        · have hPositive := hClose hKind
          obtain ⟨depth, rfl⟩ : ∃ d : Nat, depth = d + 1 := ⟨depth - 1, by omega⟩
          have hDepth : ((depth + 1 : Nat) : Int) + -1 = depth := by omega
          rw [turn_closed hKind, hDepth] at hLevel hClosing hCommas
          exact .closed hKind (ih ⟨hLevel, hClosing, hCommas⟩)
        · rw [turn_other hOpen hKind, Int.add_zero] at hLevel hClosing hCommas
          refine .other hOpen hKind (fun h => ?_) (ih ⟨hLevel, hClosing, hCommas⟩)
          have := hComma h
          omega

/-! ## The equals sign of an equation -/

theorem splitEquals?_cons {depth : Int} {token : Token} (rest : List Token)
    (h : ¬ (token.kind = .equals ∧ depth = 0)) :
    splitEquals? depth (token :: rest) =
      (splitEquals? (depth + turn token) rest).map fun sides => (token :: sides.1, sides.2) := by
  rw [splitEquals?, if_neg h]
  by_cases hOpen : token.kind = .openParen
  · simp only [turn_opened hOpen, if_pos hOpen]
  · by_cases hClose : token.kind = .closeParen
    · simp only [turn_closed hClose, if_neg hOpen, if_pos hClose]
      rfl
    · simp only [turn_other hOpen hClose, if_neg hOpen, if_neg hClose, Int.add_zero]

theorem splitEquals?_eq_some_iff {depth : Int} {tokens left right : List Token} :
    splitEquals? depth tokens = some (left, right) ↔
      ∃ sign, sign.kind = .equals ∧ tokens = left ++ sign :: right ∧
        depth + nesting left = 0 ∧ EachAt .equals (· ≠ 0) depth left := by
  induction tokens generalizing depth left with
  | nil => simp [splitEquals?]
  | cons token rest ih =>
    by_cases hFirst : token.kind = .equals ∧ depth = 0
    · rw [splitEquals?, if_pos hFirst]
      constructor
      · intro h
        cases h
        exact ⟨token, hFirst.1, rfl, by simp [nesting, hFirst.2], eachAt_nil⟩
      · rintro ⟨sign, hSign, hTokens, hLevel, hNone⟩
        cases left with
        | nil =>
          obtain ⟨rfl, rfl⟩ := List.cons.inj hTokens
          rfl
        | cons first left =>
          obtain ⟨rfl, rfl⟩ := List.cons.inj hTokens
          exact absurd hFirst.2 ((eachAt_cons.mp hNone).1 hFirst.1)
    · rw [splitEquals?_cons rest hFirst, Option.map_eq_some_iff]
      constructor
      · rintro ⟨⟨left', right'⟩, hSides, hPair⟩
        cases hPair
        obtain ⟨sign, hSign, rfl, hLevel, hNone⟩ := ih.mp hSides
        refine ⟨sign, hSign, rfl, ?_, eachAt_cons.mpr ⟨fun hKind hDepth => hFirst ⟨hKind, hDepth⟩,
          hNone⟩⟩
        show depth + nesting (token :: left') = 0
        rw [nesting_cons]
        omega
      · rintro ⟨sign, hSign, hTokens, hLevel, hNone⟩
        cases left with
        | nil =>
          obtain ⟨rfl, rfl⟩ := List.cons.inj hTokens
          exact absurd ⟨hSign, by simpa [nesting] using hLevel⟩ hFirst
        | cons first left =>
          obtain ⟨rfl, rfl⟩ := List.cons.inj hTokens
          rw [nesting_cons] at hLevel
          exact ⟨(left, right), ih.mpr ⟨sign, hSign, rfl, by omega, (eachAt_cons.mp hNone).2⟩, rfl⟩

end ProseMath.Token
