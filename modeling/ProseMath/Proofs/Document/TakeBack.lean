import Mathlib.Tactic.Common
import ProseMath.Proofs.Document.Reached

/-!
# Taking a line back

The tokens of a line are collected as prose until an equals sign shows that the line is an equation,
and are then taken back by their number alone. This is right because a reading never loses track of
where its line began: between two line ends it only goes on, so that what has been collected is what
was collected at the beginning of the line and then the line itself.

* `WithinLine.collect`: one step inside a line.
* `Reached.exists_first`: every state comes from one at the beginning of its line.
* `lineStop_append`: where a line ends.
* `Reached.takes_back_line`: what is taken back, and the line that is read instead.
-/

namespace ProseMath.Reading

open Line

/-! ## Lines by indices -/

/-- How many of `tokens` have been read. -/
def position (tokens : List Token) (s : Reading) : Nat := tokens.length - s.rest.length

/-- The index of the first newline at or behind `index`, or the number of tokens. -/
def lineStop (tokens : List Token) (index : Nat) : Nat :=
  (Token.find? tokens .newline index).getD tokens.length

/-- The tokens from `start` up to `stop` are a whole line. -/
structure IsWholeLine (tokens : List Token) (start stop : Nat) : Prop where
  start_le : start ≤ stop
  stop_le : stop ≤ tokens.length
  inside : ∀ token ∈ tokens.extract start stop, token.kind ≠ .newline
  before : 0 < start → (tokens[start - 1]?).map Token.kind = some .newline
  behind : stop < tokens.length → (tokens[stop]?).map Token.kind = some .newline

section Index

variable {front line tail : List Token}

theorem extract_append (front line tail : List Token) :
    (front ++ (line ++ tail)).extract front.length (front.length + line.length) = line := by
  rw [List.extract_eq_take_drop, List.drop_left, Nat.add_sub_cancel_left, List.take_left]

/-- The line goes on to where `tail` begins. -/
theorem lineStop_append (hLine : ∀ token ∈ line, token.kind ≠ .newline)
    (hTail : ∀ token ∈ tail.head?, token.kind = .newline) (front : List Token) :
    lineStop (front ++ (line ++ tail)) front.length = front.length + line.length := by
  have hNone : line.findIdx? (fun token => decide (token.kind = .newline)) = none := by
    simpa using hLine
  rw [lineStop, Token.find?, List.drop_left, List.findIdx?_append, hNone]
  cases tail with
  | nil => simp
  | cons newline tail =>
    simp [List.findIdx?_cons, hTail newline rfl]
    omega

theorem isWholeLine_append (hLine : ∀ token ∈ line, token.kind ≠ .newline)
    (hTail : ∀ token ∈ tail.head?, token.kind = .newline)
    (hFront : ∀ token ∈ front.getLast?, token.kind = .newline) :
    IsWholeLine (front ++ (line ++ tail)) front.length (front.length + line.length) where
  start_le := Nat.le_add_right _ _
  stop_le := by simp only [List.length_append]; omega
  inside := by rwa [extract_append]
  before := by
    intro hSome
    have hLast : (front ++ (line ++ tail))[front.length - 1]? = front.getLast? := by
      rw [List.getLast?_eq_getElem?, List.getElem?_append_left (by omega)]
    have hNe : front ≠ [] := List.length_pos_iff.mp hSome
    rw [hLast, List.getLast?_eq_some_getLast hNe, Option.map_some,
      hFront _ (List.getLast?_eq_some_getLast hNe)]
  behind := by
    intro hMore
    simp only [List.length_append] at hMore
    rw [← List.append_assoc, List.getElem?_append_right (by simp), List.length_append,
      Nat.sub_self, ← List.head?_eq_getElem?]
    cases tail with
    | nil => simp at hMore
    | cons newline tail => simp [hTail newline rfl]

end Index

/-! ## From the beginning of a line -/

/-- A reading has gone from `first`, at the beginning of a line, to `s` inside this line. -/
structure WithinLine (first s : Reading) : Prop where
  line : first.line = []
  rest : first.rest = s.line ++ s.rest
  floating : s.floating = first.floating ++ s.line
  carried : s.carried = first.depth

section WithinLine

variable {first s after : Reading} {token : Token} {rest : List Token}

theorem withinLine_self (hLine : s.line = []) (hCarried : s.carried = s.depth) :
    WithinLine s s where
  line := hLine
  rest := by rw [hLine, List.nil_append]
  floating := by rw [hLine, List.append_nil]
  carried := hCarried

theorem WithinLine.collect (h : WithinLine first s) (hRest : s.rest = token :: rest) (depth : Nat) :
    WithinLine first { s.collect token rest with depth := depth } where
  line := h.line
  rest := by simp [h.rest, hRest, Reading.collect]
  floating := by simp [h.floating, Reading.collect]
  carried := h.carried

theorem withinLine_lineEnd (s : Reading) (token : Token) (rest : List Token) :
    WithinLine (s.lineEnd token rest) (s.lineEnd token rest) := by
  unfold lineEnd
  split
  · split
    · exact withinLine_self rfl rfl
    · exact withinLine_self rfl rfl
  · exact withinLine_self rfl rfl

theorem withinLine_equationLine (h : s.equationLine token rest = .ok after) :
    WithinLine after after := by
  unfold equationLine at h
  obtain ⟨e, _, hAfter⟩ := Expr.exists_of_bind_eq_ok h
  cases hAfter
  exact withinLine_self rfl rfl

/-- Only the tokens of the line are taken back. -/
theorem WithinLine.setBack (h : WithinLine first s) : s.setBack.floating = first.floating := by
  rw [Reading.setBack, h.floating, List.length_append, Nat.add_sub_cancel, List.take_left]

end WithinLine

theorem Reached.exists_first {tokens : List Token} {s : Reading} (h : Reached tokens s) :
    ∃ first, Reached tokens first ∧ WithinLine first s := by
  induction h with
  | start => exact ⟨_, .start, withinLine_self rfl rfl⟩
  | @step s after token rest hReached hRest hStep ih =>
    obtain ⟨first, hFirst, hWithin⟩ := ih
    rcases step_eq_ok hStep with ⟨_, rfl⟩ | hEquation | ⟨_, depth, _, rfl⟩
    · exact ⟨_, hReached.step hRest hStep, withinLine_lineEnd s token rest⟩
    · exact ⟨_, hReached.step hRest hStep, withinLine_equationLine hEquation⟩
    · exact ⟨first, hFirst, hWithin.collect hRest depth⟩

/-! ## The current line -/

/-- The line that `s` stands in begins at `start`, where the reading was in the state `first`. -/
structure TakesBack (tokens : List Token) (s first : Reading) (start : Nat) : Prop where
  start_le : start ≤ s.position tokens
  rest : s.rest = tokens.drop (s.position tokens)
  line : s.line = tokens.extract start (s.position tokens)
  newline : ∀ token ∈ tokens.extract start (s.position tokens), token.kind ≠ .newline
  first_reached : Reached tokens first
  first_rest : first.rest = tokens.drop start
  /-- The carried depth is the one at the beginning of the line. -/
  carried : s.carried = first.depth
  floating : s.floating = first.floating ++ tokens.extract start (s.position tokens)
  /-- As many tokens have been collected as are taken back. -/
  in_range : s.position tokens - start ≤ s.floating.length
  /-- What has been collected before the line is left. -/
  taken_back : s.setBack.floating = first.floating
  /-- The line goes on to the next newline. -/
  whole : IsWholeLine tokens start (lineStop tokens (s.position tokens))
  position_le : s.position tokens ≤ lineStop tokens (s.position tokens)

section TakesBack

variable {tokens before line tail : List Token} {s first : Reading}

theorem Stands.position_eq (h : Stands tokens before s) :
    s.position tokens = (before ++ s.line).length := by
  rw [position, h.tokens_eq]
  simp only [List.length_append]
  omega

section Stop

variable (h : Stands tokens before s) (hRest : s.rest = line ++ tail)
  (hLine : ∀ token ∈ line, token.kind ≠ .newline)
  (hTail : ∀ token ∈ tail.head?, token.kind = .newline)

include h hRest hLine hTail

theorem Stands.lineStop_eq :
    lineStop tokens (s.position tokens) = before.length + (s.line ++ line).length := by
  have hTokens : tokens = (before ++ s.line) ++ (line ++ tail) := by
    rw [h.tokens_eq, hRest, List.append_assoc]
  rw [h.position_eq, hTokens, lineStop_append hLine hTail]
  simp only [List.length_append]
  omega

theorem Stands.takesBack (hMore : s.rest ≠ []) (hFirst : Reached tokens first)
    (hWithin : WithinLine first s) : TakesBack tokens s first before.length := by
  have hStop := h.lineStop_eq hRest hLine hTail
  have hPosition := h.position_eq
  have hRead : tokens.extract before.length (s.position tokens) = s.line := by
    rw [hPosition, List.length_append, h.tokens_eq]
    exact extract_append before s.line s.rest
  refine
    { start_le := ?_, rest := ?_, line := hRead.symm, newline := hRead.symm ▸ h.line,
      first_reached := hFirst, first_rest := ?_, carried := hWithin.carried,
      floating := hRead.symm ▸ hWithin.floating, in_range := ?_, taken_back := hWithin.setBack,
      whole := ?_, position_le := ?_ }
  · rw [hPosition, List.length_append]
    omega
  · rw [hPosition, h.tokens_eq, ← List.append_assoc, List.drop_left]
  · rw [hWithin.rest, h.tokens_eq, List.drop_left]
  · rw [hPosition, hWithin.floating, List.length_append, List.length_append]
    omega
  · have hTokens : tokens = before ++ ((s.line ++ line) ++ tail) := by
      rw [h.tokens_eq, hRest, List.append_assoc]
    rw [hStop, hTokens]
    exact isWholeLine_append (List.forall_mem_append.mpr ⟨h.line, hLine⟩) hTail (h.newline hMore)
  · rw [hStop, hPosition]
    simp only [List.length_append]
    omega

end Stop

end TakesBack

/-- At every token that is read, the tokens of its line up to there are the last ones that have been
collected, so that they can be taken back, and then all is as it was at the beginning of the line.
An equals sign outside parentheses does so, and the whole line around it is read as an
equation. -/
theorem Reached.takes_back_line {tokens rest : List Token} {s : Reading} {token : Token}
    (h : Reached tokens s) (hRest : s.rest = token :: rest) :
    ∃ first start, TakesBack tokens s first start ∧
      (token.kind = .equals → s.depth = 0 → s.step token rest =
        Equation.parse (tokens.extract start (lineStop tokens (s.position tokens))) >>= fun e =>
          .ok { s with
            blocks := s.blocks ++ paragraph first.floating ++ [.equation e], floating := [],
            line := [], depth := s.carried,
            rest := tokens.drop (lineStop tokens (s.position tokens) + 1) }) := by
  obtain ⟨before, hStands⟩ := h.stands
  obtain ⟨first, hFirst, hWithin⟩ := h.exists_first
  obtain ⟨line, tail, hSplit, hLine, hTail⟩ := exists_line_end s.rest
  refine ⟨first, before.length,
    hStands.takesBack hSplit hLine hTail (by simp [hRest]) hFirst hWithin, fun hEquals hDepth => ?_⟩
  obtain ⟨line, tail, rfl, hLine, hTail⟩ := exists_line_end rest
  -- the sign is no newline, so it belongs to the rest of its line
  have hBehind : ∀ other ∈ token :: line, other.kind ≠ .newline :=
    List.forall_mem_cons.mpr ⟨by simp [hEquals], hLine⟩
  have hTokens : tokens = before ++ ((s.line ++ token :: line) ++ tail) := by
    rw [hStands.tokens_eq, hRest, List.append_assoc]
    rfl
  have hStop := hStands.lineStop_eq hRest hBehind hTail
  have hWhole : tokens.extract before.length (lineStop tokens (s.position tokens)) =
      s.line ++ token :: line := by
    rw [hStop, hTokens, extract_append]
  have hAfter : tokens.drop (lineStop tokens (s.position tokens) + 1) = tail.drop 1 := by
    rw [hStop, hTokens, ← List.append_assoc, ← List.length_append, ← List.drop_drop, List.drop_left]
  have hStep : s.step token (line ++ tail) = s.equationLine token (line ++ tail) := by
    rw [Reading.step, hEquals]
    exact if_pos hDepth
  rw [hStep, equationLine_eq hLine hTail hWithin.floating, hWhole, hAfter]

/-- In `see⏎a = b` the sign is met when `see⏎a` has been collected, and `a` is taken back. -/
theorem Reached.takes_back_line_note :
    ∃ s token rest, Reached (tokenize "see\na = b".toList) s ∧ s.rest = token :: rest ∧
      token.kind = .equals ∧ s.depth = 0 ∧ Token.stringify s.floating = "see\na".toList ∧
      ∃ first start, TakesBack (tokenize "see\na = b".toList) s first start ∧
        Token.stringify first.floating = "see\n".toList := by
  have hTokens : tokenize "see\na = b".toList =
      [⟨.identifier, "see".toList, 0, []⟩, ⟨.newline, ['\n'], 3, []⟩, ⟨.identifier, ['a'], 4, []⟩,
        ⟨.equals, ['='], 6, [' ']⟩, ⟨.identifier, ['b'], 8, [' ']⟩] := by decide +kernel
  have hStart := @Reached.start (tokenize "see\na = b".toList)
  rw [hTokens] at hStart ⊢
  have hSign := ((hStart.step rfl rfl).step rfl rfl).step rfl rfl
  obtain ⟨first, start, hBack, _⟩ := hSign.takes_back_line rfl
  exact ⟨_, _, _, hSign, rfl, rfl, rfl, rfl, first, start, hBack, by rw [← hBack.taken_back]; rfl⟩

end ProseMath.Reading
