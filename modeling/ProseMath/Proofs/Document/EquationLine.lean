import Mathlib.Tactic.Common
import ProseMath.Proofs.Document.Position
import ProseMath.Proofs.Document.Reached

/-!
# Where the line of an equation is cut

The equals sign that makes a line an equation is found with the parentheses counted through the
lines of prose, but the line is then cut with the parentheses counted from its own beginning. Both
counts agree if no parenthesis is open there. Otherwise the line is cut at another sign: at an
earlier one that had been taken to stand inside the open parentheses, at a later one, or at none.

* `Equation.exists_cutAt`: a sign at nesting zero is cut at, unless an earlier one is.
* `Reading.Meets.cutAt`, `Reading.Meets.not_cutAt`, `Reading.Meets.earlier`, `Reading.Meets.later`:
  where a line is cut, by the parentheses that are open at its beginning.
* `Document.ofTokens_cuts`: the lines of all equations of a document.
-/

namespace ProseMath

/-! ## Cuts -/

/-- A line is cut into the sides of an equation at the token with an index. -/
def Equation.CutAt (line : List Token) (index : Nat) : Prop :=
  ∃ left right, Token.splitEquals? 0 line = some (left, right) ∧ left.length = index

theorem Equation.cutAt_iff {line : List Token} {index : Nat} :
    CutAt line index ↔ ∃ left sign right, line = left ++ sign :: right ∧ left.length = index ∧
      sign.kind = .equals ∧ Token.nesting left = 0 ∧ Token.EachAt .equals (· ≠ 0) 0 left := by
  simp only [CutAt, Token.splitEquals?_eq_some_iff, Int.zero_add]
  constructor
  · rintro ⟨left, right, ⟨sign, hSign, hLine, hLevel, hNone⟩, hIndex⟩
    exact ⟨left, sign, right, hLine, hIndex, hSign, hLevel, hNone⟩
  · rintro ⟨left, sign, right, hLine, hIndex, hSign, hLevel, hNone⟩
    exact ⟨left, right, ⟨sign, hSign, hLine, hLevel, hNone⟩, hIndex⟩

theorem Token.exists_splitEquals? {depth : Int} {left : List Token} {sign : Token}
    (hSign : sign.kind = .equals) (hLevel : depth + nesting left = 0) (right : List Token) :
    ∃ a b, splitEquals? depth (left ++ sign :: right) = some (a, b) ∧ a.length ≤ left.length := by
  induction left generalizing depth with
  | nil =>
    have hDepth : depth = 0 := by simpa [nesting] using hLevel
    exact ⟨[], right, by rw [List.nil_append, splitEquals?, if_pos ⟨hSign, hDepth⟩], Nat.le_refl _⟩
  | cons token left ih =>
    by_cases hFirst : token.kind = .equals ∧ depth = 0
    · refine ⟨[], left ++ sign :: right, ?_, Nat.zero_le _⟩
      rw [List.cons_append, splitEquals?, if_pos hFirst]
    · rw [nesting_cons, ← Int.add_assoc] at hLevel
      obtain ⟨a, b, hSplit, hLength⟩ := ih hLevel
      refine ⟨token :: a, b, ?_, Nat.succ_le_succ hLength⟩
      rw [List.cons_append, splitEquals?_cons _ hFirst, hSplit]
      rfl

theorem Equation.exists_cutAt {left : List Token} {sign : Token} (hSign : sign.kind = .equals)
    (hLevel : Token.nesting left = 0) (right : List Token) :
    ∃ index ≤ left.length, CutAt (left ++ sign :: right) index := by
  obtain ⟨a, b, hSplit, hLength⟩ :=
    Token.exists_splitEquals? hSign ((Int.zero_add _).trans hLevel) right
  exact ⟨a.length, hLength, a, b, hSplit, rfl⟩

/-- A line that is cut in its first part has an equals sign at nesting zero there. -/
theorem Equation.not_eachAt_of_cutAt {a b : List Token} {index : Nat} (h : CutAt (a ++ b) index)
    (hIndex : index < a.length) : ¬ Token.EachAt .equals (· ≠ 0) 0 a := by
  obtain ⟨left, sign, right, hLine, rfl, hSign, hLevel, _⟩ := cutAt_iff.mp h
  rcases List.append_eq_append_iff.mp hLine with ⟨more, rfl, _⟩ | ⟨more, rfl, hMore⟩
  · rw [List.length_append] at hIndex
    omega
  · cases more with
    | nil => simp at hIndex
    | cons first more =>
      obtain ⟨rfl, _⟩ := List.cons.inj hMore
      exact fun hNone => hNone left sign more rfl hSign ((Int.zero_add _).trans hLevel)

theorem Equation.exists_cutAt_or (line : List Token) :
    (∃ index, CutAt line index) ∨
      parse line = .error (.atFirst (.missingEquals (Token.stringify line)) line) := by
  cases hSplit : Token.splitEquals? 0 line with
  | none =>
    rw [parse, hSplit]
    exact Or.inr rfl
  | some sides => exact Or.inl ⟨sides.1.length, sides.1, sides.2, hSplit, rfl⟩

namespace Reading

/-! ## Equals signs outside parentheses -/

/-- The reading of `tokens` meets an equals sign outside the parentheses it has counted, in the
middle of a line. -/
inductive Meets (tokens : List Token) (s : Reading) : List Token → Prop
  | intro {sign : Token} {tail later : List Token} (hReached : Reached tokens s)
    (hRest : s.rest = sign :: (tail ++ later)) (hSign : sign.kind = .equals) (hDepth : s.depth = 0)
    (hTail : ∀ token ∈ tail, token.kind ≠ .newline)
    (hLater : ∀ token ∈ later.head?, token.kind = .newline) :
    Meets tokens s (s.line ++ sign :: tail)

namespace Meets

variable {tokens line : List Token} {s : Reading}

theorem verdict (h : Meets tokens s line) : Line.verdict s.carried s.line = .prose 0 := by
  cases h with
  | intro hReached _ _ hDepth _ _ =>
    obtain ⟨before, hStands⟩ := hReached.stands
    rw [hStands.verdict, hDepth]

/-- A line that is no equation ends the reading. -/
theorem ofTokens_eq_error (h : Meets tokens s line) {e : SyntaxError}
    (hLine : Equation.parse line = .error e) : Document.ofTokens tokens = .error e := by
  cases h with
  | intro hReached hRest hSign hDepth hTail hLater =>
    obtain ⟨before, hStands⟩ := hReached.stands
    obtain ⟨front, hFloating⟩ := hStands.floating
    rw [← hReached.run_eq, run_cons hRest, step, hSign]
    simp only [if_pos hDepth]
    rw [equationLine_eq hTail hLater hFloating, hLine]
    rfl

theorem cutAt (h : Meets tokens s line) (hCarried : s.carried = 0) :
    Equation.CutAt line s.line.length := by
  have hVerdict := h.verdict
  rw [hCarried] at hVerdict
  have hLevel := nesting_of_verdict hVerdict
  cases h with
  | @intro sign tail _ _ _ hSign _ _ _ =>
    refine Equation.cutAt_iff.mpr ⟨s.line, sign, tail, rfl, rfl, hSign, ?_,
      eachAt_of_verdict hVerdict⟩
    omega

theorem not_cutAt (h : Meets tokens s line) (hCarried : 0 < s.carried) :
    ¬ Equation.CutAt line s.line.length := by
  intro hCut
  have hLevel := nesting_of_verdict h.verdict
  obtain ⟨left, sign, right, hLine, hLength, _, hZero, _⟩ := Equation.cutAt_iff.mp hCut
  cases h with
  | intro _ _ _ _ _ _ =>
    obtain ⟨rfl, _⟩ := List.append_inj hLine hLength.symm
    omega

/-- An earlier sign at nesting zero was passed inside the parentheses that are open at the beginning
of the line. -/
theorem earlier (h : Meets tokens s line) (hPassed : ¬ Token.EachAt .equals (· ≠ 0) 0 s.line) :
    ∃ index < s.line.length, Equation.CutAt line index := by
  simp only [Token.EachAt, not_forall, Int.zero_add, ne_eq, not_not] at hPassed
  obtain ⟨left, sign, right, hLine, hSign, hLevel⟩ := hPassed
  cases h with
  | @intro met tail _ _ _ _ _ _ _ =>
    obtain ⟨index, hIndex, hCut⟩ := Equation.exists_cutAt hSign hLevel (right ++ met :: tail)
    refine ⟨index, ?_, ?_⟩
    · rw [hLine, List.length_append, List.length_cons]
      omega
    · rwa [hLine, List.append_assoc, List.cons_append]

theorem later (h : Meets tokens s line) (hCarried : 0 < s.carried)
    (hNone : Token.EachAt .equals (· ≠ 0) 0 s.line) :
    (∃ index, s.line.length < index ∧ Equation.CutAt line index) ∨
      Equation.parse line = .error (.atFirst (.missingEquals (Token.stringify line)) line) := by
  rcases Equation.exists_cutAt_or line with ⟨index, hCut⟩ | hError
  · refine Or.inl ⟨index, ?_, hCut⟩
    rcases Nat.lt_trichotomy index s.line.length with hLess | rfl | hMore
    · cases h with
      | intro _ _ _ _ _ _ => exact absurd hNone (Equation.not_eachAt_of_cutAt hCut hLess)
    · exact absurd hCut (h.not_cutAt hCarried)
    · exact hMore
  · exact Or.inr hError

/-- Parentheses that are open at the beginning of a line were opened in front of the newline before
it. -/
theorem exists_opened (h : Meets tokens s line) (hCarried : 0 < s.carried) :
    ∃ before newline later, tokens = before ++ newline :: (line ++ later) ∧
      newline.kind = .newline ∧ ∃ token ∈ before, token.kind = .openParen := by
  cases h with
  | @intro sign tail later hReached hRest _ _ _ _ =>
    obtain ⟨before, hStands⟩ := hReached.stands
    obtain ⟨opening, hMem, hOpen⟩ := hStands.opened hCarried
    obtain ⟨front, newline, rfl⟩ : ∃ front newline, before = front ++ [newline] :=
      (List.eq_nil_or_concat' before).resolve_left (List.ne_nil_of_mem hMem)
    have hNewline := hStands.newline (by simp [hRest]) newline (by simp)
    refine ⟨front, newline, later, ?_, hNewline, opening, ?_, hOpen⟩
    · simp [hStands.tokens_eq, hRest]
    · rcases List.mem_append.mp hMem with hFront | hLast
      · exact hFront
      · rw [List.mem_singleton.mp hLast, hNewline] at hOpen
        cases hOpen

end Meets

/-- A reading that misses an equals sign has met one in the line. -/
theorem exists_meets_of_missingEquals {tokens : List Token} {e : SyntaxError}
    (h : Document.ofTokens tokens = .error e) (hKind : e.fault.kind = .missingEquals) :
    ∃ s line, Meets tokens s line ∧ Equation.parse line = .error e := by
  obtain ⟨s, sign, rest, hReached, hRest, hStep⟩ := Reached.start.exists_step_error h
  rcases step_eq_error hStep with rfl | ⟨⟨hSign, hDepth⟩, hEquation⟩
  · cases hKind
  · obtain ⟨tail, later, rfl, hTail, hLater⟩ := exists_line_end rest
    obtain ⟨before, hStands⟩ := hReached.stands
    obtain ⟨front, hFloating⟩ := hStands.floating
    rw [equationLine_eq hTail hLater hFloating] at hEquation
    refine ⟨s, _, .intro hReached hRest hSign hDepth hTail hLater, ?_⟩
    rcases exists_of_bind_eq_error hEquation with hParse | ⟨_, _, hOk⟩
    · exact hParse
    · cases hOk

end Reading

namespace Document

open Reading

/-- An equals sign that is met outside all parentheses cuts its line if none of them is open at the
beginning of the line. Otherwise it does not: the line is cut at an earlier sign if it has one at
nesting zero, else at a later one or not at all. So only a line that begins inside parentheses can
lack its sign. -/
theorem ofTokens_cuts (tokens : List Token) :
    (∀ s line, Meets tokens s line →
      (∀ e, Equation.parse line = .error e → ofTokens tokens = .error e) ∧
      (s.carried = 0 → Equation.CutAt line s.line.length) ∧
      (0 < s.carried → ¬ Equation.CutAt line s.line.length ∧
        (¬ Token.EachAt .equals (· ≠ 0) 0 s.line →
          ∃ index < s.line.length, Equation.CutAt line index) ∧
        (Token.EachAt .equals (· ≠ 0) 0 s.line →
          (∃ index, s.line.length < index ∧ Equation.CutAt line index) ∨
          Equation.parse line =
            .error (.atFirst (.missingEquals (Token.stringify line)) line)))) ∧
    ∀ e, ofTokens tokens = .error e → e.fault.kind = .missingEquals →
      ∃ s line, Meets tokens s line ∧ 0 < s.carried ∧
        e = .atFirst (.missingEquals (Token.stringify line)) line ∧
        ∃ before newline later, tokens = before ++ newline :: (line ++ later) ∧
          newline.kind = .newline ∧ ∃ token ∈ before, token.kind = .openParen := by
  refine ⟨fun s line hMeets => ⟨fun e => hMeets.ofTokens_eq_error, hMeets.cutAt, fun hCarried =>
    ⟨hMeets.not_cutAt hCarried, hMeets.earlier, hMeets.later hCarried⟩⟩, fun e hError hKind => ?_⟩
  obtain ⟨s, line, hMeets, hLine⟩ := exists_meets_of_missingEquals hError hKind
  rcases Equation.parse_eq_error_cases hLine with ⟨hNone, rfl⟩ | hCall
  · have hCarried : 0 < s.carried := by
      rcases Nat.eq_zero_or_pos s.carried with hZero | hPositive
      · obtain ⟨left, right, hSplit, _⟩ := hMeets.cutAt hZero
        rw [hNone] at hSplit
        cases hSplit
      · exact hPositive
    exact ⟨s, line, hMeets, hCarried, rfl, hMeets.exists_opened hCarried⟩
  · rw [hCall.kind] at hKind
    cases hKind

/-- In `a = b` the line is cut at its sign. In `(see⏎note) a = b` the sign is met outside
parentheses too, but the second line cannot be cut there. -/
theorem ofTokens_cuts_note :
    (∃ s line, Meets (tokenize "a = b".toList) s line ∧ s.carried = 0 ∧
        Equation.CutAt line s.line.length) ∧
      ofTokens (tokenize "(see\nnote) a = b".toList) =
        .error ⟨.missingEquals "note)a=b".toList, some 5⟩ ∧
      ∃ s line, Meets (tokenize "(see\nnote) a = b".toList) s line ∧ 0 < s.carried ∧
        ¬ Equation.CutAt line s.line.length := by
  constructor
  · have hTokens : tokenize "a = b".toList = [⟨.identifier, ['a'], 0, []⟩,
        ⟨.equals, ['='], 2, [' ']⟩, ⟨.identifier, ['b'], 4, [' ']⟩] := by decide +kernel
    have hStart := @Reached.start (tokenize "a = b".toList)
    rw [hTokens] at hStart ⊢
    have hMeets := @Meets.intro _ _ _ [_] [] (hStart.step rfl rfl) rfl rfl rfl (by simp) (by simp)
    exact ⟨_, _, hMeets, rfl, ((ofTokens_cuts _).1 _ _ hMeets).2.1 rfl⟩
  · have hFault : Expr.fault? (ofTokens (tokenize "(see\nnote) a = b".toList)) =
        some ⟨.missingEquals "note)a=b".toList, some 5⟩ := by decide +kernel
    have hError := Expr.fault?_eq_some_iff.mp hFault
    obtain ⟨hMet, hMissing⟩ := ofTokens_cuts (tokenize "(see\nnote) a = b".toList)
    obtain ⟨s, line, hMeets, hCarried, _⟩ := hMissing _ hError rfl
    exact ⟨hError, s, line, hMeets, hCarried, ((hMet s line hMeets).2.2 hCarried).1⟩

/-- In `(a⏎b = c) d = e` the last sign is met outside parentheses, but its line is cut at the sign
before, which had been passed inside them. -/
theorem ofTokens_cuts_earlier_sign :
    ∃ s line, Meets (tokenize "(a\nb = c) d = e".toList) s line ∧ 0 < s.carried ∧
      ¬ ((∃ index, s.line.length < index ∧ Equation.CutAt line index) ∨
        Equation.parse line = .error (.atFirst (.missingEquals (Token.stringify line)) line)) := by
  have hTokens : tokenize "(a\nb = c) d = e".toList =
      [⟨.openParen, ['('], 0, []⟩, ⟨.identifier, ['a'], 1, []⟩, ⟨.newline, ['\n'], 2, []⟩,
        ⟨.identifier, ['b'], 3, []⟩, ⟨.equals, ['='], 5, [' ']⟩, ⟨.identifier, ['c'], 7, [' ']⟩,
        ⟨.closeParen, [')'], 8, []⟩, ⟨.identifier, ['d'], 10, [' ']⟩, ⟨.equals, ['='], 12, [' ']⟩,
        ⟨.identifier, ['e'], 14, [' ']⟩] := by decide +kernel
  have hStart := @Reached.start (tokenize "(a\nb = c) d = e".toList)
  rw [hTokens] at hStart ⊢
  have hFirst := ((hStart.step rfl rfl).step rfl rfl).step rfl rfl
  have hSecond := ((((hFirst.step rfl rfl).step rfl rfl).step rfl rfl).step rfl rfl).step rfl rfl
  refine ⟨_, _, @Meets.intro _ _ _ [_] [] hSecond rfl rfl rfl ?_ ?_, Nat.one_pos, ?_⟩
  · simp
  · simp
  · rintro (⟨index, hIndex, left, right, hSplit, rfl⟩ | hError)
    · cases hSplit
      exact absurd hIndex (by decide)
    · have hFault := Expr.fault?_eq_some_iff.mpr hError
      revert hFault
      decide +kernel

end Document

end ProseMath
