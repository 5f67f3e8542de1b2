import Mathlib.Tactic.Common
import ProseMath.Proofs.Expr.Grammar

/-!
# What reading does not notice

The expression of a token list depends on the texts of the tokens, on which of them decide how the
list is read and on where there are parentheses, commas and equals signs. A change of the tokens
that keeps all this (`Recast`) changes nothing but the offsets in errors.

* `parse_map`: reading tokens after a change is reading them before it.
* `Equation.parse_map`: the same for equations.
-/

namespace ProseMath

/-- An error at another offset. -/
def SyntaxError.moved (move : Int → Int) (e : SyntaxError) : SyntaxError :=
  { e with offset := e.offset.map move }

/-- A result whose error, if it is one, is at another offset. -/
def moved {α : Type} (move : Int → Int) (x : Except SyntaxError α) : Except SyntaxError α :=
  x.mapError (·.moved move)

theorem eq_ok_of_moved {α : Type} {move : Int → Int} {x : Except SyntaxError α} {a : α}
    (h : moved move x = .ok a) : x = .ok a := by
  cases x with
  | error e => cases h
  | ok b => exact h

theorem moved_bind {α β : Type} {move : Int → Int} (x : Except SyntaxError α)
    (f : α → Except SyntaxError β) :
    moved move (x >>= f) = moved move x >>= fun a => moved move (f a) := by
  cases x <;> rfl

/-- The kinds of tokens that reading asks for. -/
def Kind.structural : List Kind := [.openParen, .closeParen, .comma, .plus, .equals, .newline]

/-- A change of tokens that reading does not notice, and what it does to offsets. -/
structure Recast (f : Token → Token) (move : Int → Int) : Prop where
  text : ∀ token, (f token).text = token.text
  offset : ∀ token, (f token).offset = move token.offset
  pivot : ∀ token, Expr.pivot? (f token) = Expr.pivot? token
  kind : ∀ kind ∈ Kind.structural, ∀ token, (f token).kind = kind ↔ token.kind = kind

namespace Recast

variable {f : Token → Token} {move : Int → Int} (h : Recast f move)

include h

/-! ## Groups -/

theorem stringify_map (tokens : List Token) :
    Token.stringify (tokens.map f) = Token.stringify tokens := by
  rw [Token.stringify, List.flatMap_map]
  exact congrArg (List.flatMap · tokens) (funext h.text)

theorem closing?_map (depth : Nat) (tokens : List Token) :
    Token.closing? depth (tokens.map f) = Token.closing? depth tokens := by
  induction tokens generalizing depth with
  | nil => rfl
  | cons token rest ih =>
    have hOpen := h.kind .openParen (by decide) token
    have hClose := h.kind .closeParen (by decide) token
    simp only [List.map_cons, Token.closing?, hOpen, hClose, ih]

omit h in
theorem consGroup_map (token : Token) (groups : List (List Token)) :
    Token.consGroup (f token) (groups.map (List.map f)) =
      (Token.consGroup token groups).map (List.map f) := by
  cases groups <;> rfl

theorem splitAtDepth_map (depth : Int) (tokens : List Token) :
    Token.splitAtDepth .comma depth (tokens.map f) =
      (Token.splitAtDepth .comma depth tokens).map (List.map f) := by
  induction tokens generalizing depth with
  | nil => rfl
  | cons token rest ih =>
    have hOpen := h.kind .openParen (by decide) token
    have hClose := h.kind .closeParen (by decide) token
    have hComma := h.kind .comma (by decide) token
    simp only [List.map_cons, Token.splitAtDepth, hOpen, hClose, hComma, ih, consGroup_map]
    split
    · rfl
    · split
      · rfl
      · split <;> rfl

theorem splitEquals?_map (depth : Int) (tokens : List Token) :
    Token.splitEquals? depth (tokens.map f) =
      (Token.splitEquals? depth tokens).map fun sides => (sides.1.map f, sides.2.map f) := by
  induction tokens generalizing depth with
  | nil => rfl
  | cons token rest ih =>
    have hOpen := h.kind .openParen (by decide) token
    have hClose := h.kind .closeParen (by decide) token
    have hEquals := h.kind .equals (by decide) token
    simp only [List.map_cons, Token.splitEquals?, hOpen, hClose, hEquals, ih]
    split
    · rfl
    · rw [Option.map_map, Option.map_map]
      rfl

end Recast

namespace Expr

/-! ## Calls -/

def Decision.map (f : Token → Token) (decision : Decision) : Decision :=
  ⟨decision.pivot, f decision.token, decision.rest.map f⟩

def Arguments.map (f : Token → Token) : Arguments → Arguments
  | .sum lower upper body => .sum (lower.map f) (upper.map f) (body.map f)
  | .frac numerator denominator => .frac (numerator.map f) (denominator.map f)

theorem Arguments.ofGroups?_map (f : Token → Token) (callee : Callee)
    (groups : List (List Token)) :
    ofGroups? callee (groups.map (List.map f)) = (ofGroups? callee groups).map (.map f) := by
  rcases groups with _ | ⟨first, _ | ⟨second, _ | ⟨third, _ | ⟨fourth, groups⟩⟩⟩⟩ <;>
    cases callee <;> rfl

section Parse

variable {f : Token → Token} {move : Int → Int} (h : Recast f move)

include h

theorem splitPivot_map (tokens : List Token) :
    splitPivot (tokens.map f) =
      ((splitPivot tokens).1.map f, (splitPivot tokens).2.map (·.map f)) := by
  induction tokens with
  | nil => rfl
  | cons token rest ih =>
    rw [List.map_cons, splitPivot, splitPivot, h.pivot, ih]
    cases pivot? token <;> rfl

theorem readCall_map (callee : Callee) (keyword : Token) (rest : List Token) :
    readCall callee (f keyword) (rest.map f) =
      moved move ((readCall callee keyword rest).map fun read => (read.1.map f, read.2.map f)) := by
  cases rest with
  | nil =>
    rw [List.map_nil, readCall, readCall, h.offset]
    rfl
  | cons paren inner =>
    have hOpen := h.kind .openParen (by decide) paren
    simp only [List.map_cons, readCall, hOpen, h.closing?_map, h.offset]
    split
    · cases Token.closing? 0 inner with
      | none => rfl
      | some index =>
        dsimp only
        rw [← List.map_take, ← List.map_drop, Token.splitTopLevel, Token.splitTopLevel,
          h.splitAtDepth_map, Arguments.ofGroups?_map, List.length_map]
        cases Arguments.ofGroups? callee (Token.splitAtDepth .comma 0 (inner.take index)) <;> rfl
    · rfl

/-! ## Expressions -/

theorem attach_map (before : List Token) (call : Expr) :
    attach (before.map f) call = attach before call := by
  rw [attach, attach, List.isEmpty_map, h.stringify_map]

omit h in
/-- The arguments of a call after a change, if each of them is read as before it. -/
theorem parseArguments_map {arguments : Arguments}
    (hGroups : ∀ group ∈ arguments.groups, parse (group.map f) = moved move (parse group)) :
    parseArguments (arguments.map f) = moved move (parseArguments arguments) := by
  cases arguments with
  | sum lower upper body =>
    have hLower := hGroups lower (by simp [Arguments.groups])
    have hUpper := hGroups upper (by simp [Arguments.groups])
    have hBody := hGroups body (by simp [Arguments.groups])
    rw [Arguments.map, parseArguments, parseArguments, hLower, hUpper, hBody]
    simp only [moved_bind]
    rfl
  | frac numerator denominator =>
    have hNumerator := hGroups numerator (by simp [Arguments.groups])
    have hDenominator := hGroups denominator (by simp [Arguments.groups])
    rw [Arguments.map, parseArguments, parseArguments, hNumerator, hDenominator]
    simp only [moved_bind]
    rfl

theorem proceed_map (node : Expr) {after : List Token}
    (hAfter : ∀ tail, tail.length ≤ after.length → parse (tail.map f) = moved move (parse tail)) :
    proceed node (after.map f) = moved move (proceed node after) := by
  cases after with
  | nil => rfl
  | cons token tail =>
    have hPlus := h.kind .plus (by decide) token
    have hEquals := h.kind .equals (by decide) token
    have hTail := hAfter tail (Nat.le_succ _)
    have hAll := hAfter (token :: tail) (Nat.le_refl _)
    rw [List.map_cons] at hAll
    simp only [List.map_cons, proceed, hPlus, hEquals, hTail, hAll]
    split
    · rw [moved_bind]
      rfl
    · split
      · rw [moved_bind]
        rfl
      · rw [moved_bind]
        rfl

theorem parse_map (tokens : List Token) : parse (tokens.map f) = moved move (parse tokens) := by
  generalize hLength : tokens.length = n
  induction n using Nat.strongRecOn generalizing tokens with
  | ind n ih =>
    have hMap := splitPivot_map h tokens
    rcases hSplit : splitPivot tokens with ⟨before, _ | ⟨pivot, token, rest⟩⟩
    · rw [hSplit] at hMap
      rw [parse_plain hSplit, parse_plain hMap, h.stringify_map]
      rfl
    · have hRest : rest.length < n := hLength ▸ splitPivot_length hSplit
      have hParse := ih rest.length hRest rest rfl
      rw [hSplit] at hMap
      cases pivot with
      | plus =>
        rw [parse_plus hSplit, parse_plus hMap, moved_bind, hParse, h.stringify_map]
        rfl
      | equals =>
        rw [parse_equals hSplit, parse_equals hMap, moved_bind, hParse, h.stringify_map]
        rfl
      | call callee =>
        have hRead := readCall_map h callee token rest
        cases hCall : readCall callee token rest with
        | error e =>
          rw [hCall] at hRead
          rw [parse_call_error hSplit hCall, parse_call_error hMap hRead]
          rfl
        | ok read =>
          obtain ⟨arguments, after⟩ := read
          rw [hCall] at hRead
          obtain ⟨hAfter, hGroups⟩ := readCall_length hCall
          have hInner : ∀ group ∈ arguments.groups,
              parse (group.map f) = moved move (parse group) := by
            intro group hGroup
            exact ih group.length (Nat.lt_trans (hGroups group hGroup) hRest) group rfl
          rw [parse_call hSplit hCall, parse_call hMap hRead, moved_bind, parseArguments_map hInner]
          congr 1
          funext call
          rw [attach_map h]
          refine proceed_map h _ fun tail hTail => ih tail.length ?_ tail rfl
          exact Nat.lt_of_le_of_lt hTail (Nat.lt_trans hAfter hRest)

end Parse

end Expr

theorem Equation.parse_map {f : Token → Token} {move : Int → Int} (h : Recast f move)
    (tokens : List Token) : Equation.parse (tokens.map f) = moved move (Equation.parse tokens) := by
  rw [Equation.parse, Equation.parse, h.splitEquals?_map]
  cases Token.splitEquals? 0 tokens with
  | none =>
    rw [h.stringify_map]
    cases tokens with
    | nil => rfl
    | cons token tokens =>
      simp only [SyntaxError.atFirst, List.map_cons, List.head?_cons, Option.map_some,
        Option.map_none, h.offset]
      rfl
  | some sides =>
    simp only [Option.map_some, Expr.parse_map h, moved_bind]
    rfl

end ProseMath
