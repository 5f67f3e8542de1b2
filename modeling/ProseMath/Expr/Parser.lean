import ProseMath.Expr.Fault
import ProseMath.Token.Group

/-!
# Reading expressions

The first `+`, `=` or call keyword of a token list decides how it is read; parentheses do not matter
for this choice. Tokens without any of these are an identifier, whose name is their texts put
together. The text before a call and what follows it, unless that goes on with `+` or `=`, are
kept next to the call in a sequence.

* `splitPivot_append`: the deciding token and what stands before and behind it make up the list.
* `readCall_length`: arguments of a call, and what follows it, are shorter than what was read.
-/

namespace ProseMath.Expr

/-- A token that decides how a list is read. -/
inductive Pivot where
  | plus
  | equals
  | call (callee : Callee)
deriving DecidableEq, Repr

/-- What a token decides. -/
def pivot? (token : Token) : Option Pivot :=
  match token.kind with
  | .plus => some .plus
  | .equals => some .equals
  | .identifier => (Callee.ofKeyword? token.text).map .call
  | _ => none

/-- The deciding token of a list, with the tokens behind it. -/
structure Decision where
  pivot : Pivot
  token : Token
  rest : List Token

/-- The tokens before the first that decides, and that one. -/
def splitPivot : List Token → List Token × Option Decision
  | [] => ([], none)
  | token :: rest =>
    match pivot? token with
    | some pivot => ([], some ⟨pivot, token, rest⟩)
    | none => (token :: (splitPivot rest).1, (splitPivot rest).2)

/-- The arguments of a call, not yet read. -/
inductive Arguments where
  | sum (lower upper body : List Token)
  | frac (numerator denominator : List Token)

/-- The arguments in order. -/
def Arguments.groups : Arguments → List (List Token)
  | .sum lower upper body => [lower, upper, body]
  | .frac numerator denominator => [numerator, denominator]

/-- Groups of tokens as the arguments of a form, if there are as many as it takes. -/
def Arguments.ofGroups? : Callee → List (List Token) → Option Arguments
  | .sum, [lower, upper, body] => some (.sum lower upper body)
  | .frac, [numerator, denominator] => some (.frac numerator denominator)
  | _, _ => none

/-- The arguments behind a keyword and the tokens behind the call. -/
def readCall (callee : Callee) (keyword : Token) (rest : List Token) :
    Except SyntaxError (Arguments × List Token) :=
  match rest with
  | [] => .error ⟨.notFollowedByOpen callee, some keyword.offset⟩
  | paren :: inner =>
    if paren.kind = .openParen then
      match Token.closing? 0 inner with
      | none => .error ⟨.unclosedCall callee, some paren.offset⟩
      | some index =>
        let groups := Token.splitTopLevel .comma (inner.take index)
        match Arguments.ofGroups? callee groups with
        | some arguments => .ok (arguments, inner.drop (index + 1))
        | none => .error ⟨.wrongArity callee groups.length, some keyword.offset⟩
    else .error ⟨.notFollowedByOpen callee, some keyword.offset⟩

theorem splitPivot_append {tokens before : List Token} {decision : Decision}
    (h : splitPivot tokens = (before, some decision)) :
    before ++ decision.token :: decision.rest = tokens := by
  induction tokens generalizing before with
  | nil => simp [splitPivot] at h
  | cons token rest ih =>
    rw [splitPivot] at h
    split at h
    · cases h; rfl
    · obtain ⟨rfl, hSecond⟩ := Prod.mk.inj h
      rw [List.cons_append, ih (Prod.ext rfl hSecond)]

theorem splitPivot_length {tokens before : List Token} {decision : Decision}
    (h : splitPivot tokens = (before, some decision)) :
    decision.rest.length < tokens.length := by
  have := congrArg List.length (splitPivot_append h)
  simp only [List.length_append, List.length_cons] at this
  omega

theorem Arguments.groups_ofGroups? {callee : Callee} {groups : List (List Token)}
    {arguments : Arguments} (h : ofGroups? callee groups = some arguments) :
    arguments.groups = groups := by
  unfold ofGroups? at h
  split at h <;> cases h <;> rfl

theorem readCall_length {callee : Callee} {keyword : Token} {rest after : List Token}
    {arguments : Arguments} (h : readCall callee keyword rest = .ok (arguments, after)) :
    after.length < rest.length ∧ ∀ group ∈ arguments.groups, group.length < rest.length := by
  unfold readCall at h
  split at h
  · cases h
  · rename_i paren inner
    split at h
    · split at h
      · cases h
      · rename_i index hIndex
        dsimp only at h
        split at h
        · rename_i hGroups
          cases h
          refine ⟨by simp only [List.length_drop, List.length_cons]; omega, fun group hGroup => ?_⟩
          rw [Arguments.groups_ofGroups? hGroups] at hGroup
          have := Token.length_of_mem_splitTopLevel hGroup
          simp only [List.length_take, List.length_cons] at *
          omega
        · cases h
    · cases h

/-- Reads tokens as an expression. -/
def parse (tokens : List Token) : Except SyntaxError Expr :=
  match _hSplit : splitPivot tokens with
  | (before, none) => .ok (.identifier (Token.stringify before))
  | (before, some ⟨.plus, _, rest⟩) => do
    let right ← parse rest
    return .plus (.identifier (Token.stringify before)) right
  | (before, some ⟨.equals, _, rest⟩) => do
    let rhs ← parse rest
    return .equation (.identifier (Token.stringify before)) rhs
  | (before, some ⟨.call callee, keyword, rest⟩) =>
    match _hCall : readCall callee keyword rest with
    | .error e => .error e
    | .ok (arguments, after) => do
      let call ← match _hArguments : arguments with
        | .sum lower upper body => do
          let lower ← parse lower
          let upper ← parse upper
          let body ← parse body
          pure (Expr.sum lower upper body)
        | .frac numerator denominator => do
          let numerator ← parse numerator
          let denominator ← parse denominator
          pure (Expr.fraction numerator denominator)
      let node := if before.isEmpty then call
        else juxtapose (.identifier (Token.stringify before)) call
      match _hAfter : after with
      | [] => return node
      | token :: tail =>
        if token.kind = .plus then do
          let right ← parse tail
          return .plus node right
        else if token.kind = .equals then do
          let rhs ← parse tail
          return .equation node rhs
        else do
          let next ← parse after
          return juxtapose node next
termination_by tokens.length
decreasing_by
  all_goals have hRest := splitPivot_length _hSplit
  · exact hRest
  · exact hRest
  all_goals
    obtain ⟨hLast, hGroups⟩ := readCall_length _hCall
    subst_vars
    simp only [Arguments.groups, List.mem_cons, List.not_mem_nil, or_false, forall_eq_or_imp,
      forall_eq, List.length_cons] at hLast hGroups hRest ⊢
    omega

end ProseMath.Expr

namespace ProseMath.Equation

/-- Reads tokens as an equation: both sides of the first equals sign outside parentheses. -/
def parse (tokens : List Token) : Except SyntaxError Equation :=
  match Token.splitEquals? 0 tokens with
  | some (left, right) => do
    let lhs ← Expr.parse left
    let rhs ← Expr.parse right
    return ⟨lhs, rhs⟩
  | none => .error (.atFirst (.missingEquals (Token.stringify tokens)) tokens)

end ProseMath.Equation
