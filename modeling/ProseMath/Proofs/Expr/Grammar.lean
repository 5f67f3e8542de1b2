import Mathlib.Tactic.Common
import ProseMath.Expr.Parser
import ProseMath.Proofs.Token.Nesting

/-!
# The grammar of expressions

`Reads form tokens e` says that a token list has the expression `e`, by one rule for each way to
build an expression. The form of a list tells what can be put in front of an operator: a list
without deciding tokens (`plain`), a single call with the text before it (`call`), and all others
(`chain`).

* `parse_eq_ok_iff`: the parser reads `e` exactly if a rule of the grammar gives it.
* `readCall_eq_ok_iff`: a call is read exactly if its arguments stand in parentheses.
* `Equation.parse_eq_ok_iff`: an equation is read from the two sides of its first equals sign at
  nesting zero.
-/

namespace ProseMath.Expr

/-! ## Successful steps -/

theorem exists_of_bind_eq_ok {ε α β : Type} {x : Except ε α} {f : α → Except ε β} {b : β}
    (h : x >>= f = .ok b) : ∃ a, x = .ok a ∧ f a = .ok b := by
  cases x with
  | error e => cases h
  | ok a => exact ⟨a, rfl, h⟩

/-! ## The deciding token -/

def NoPivot (tokens : List Token) : Prop := ∀ token ∈ tokens, pivot? token = none

theorem splitPivot_of_noPivot {before : List Token} (h : NoPivot before) :
    splitPivot before = (before, none) := by
  induction before with
  | nil => rfl
  | cons token before ih =>
    rw [splitPivot, h token List.mem_cons_self,
      ih fun other hOther => h other (List.mem_cons_of_mem _ hOther)]

theorem splitPivot_at {before : List Token} {token : Token} {pivot : Pivot}
    (hBefore : NoPivot before) (hToken : pivot? token = some pivot) (rest : List Token) :
    splitPivot (before ++ token :: rest) = (before, some ⟨pivot, token, rest⟩) := by
  induction before with
  | nil => rw [List.nil_append, splitPivot, hToken]
  | cons first before ih =>
    rw [List.cons_append, splitPivot, hBefore first List.mem_cons_self,
      ih fun other hOther => hBefore other (List.mem_cons_of_mem _ hOther)]

theorem noPivot_splitPivot (tokens : List Token) : NoPivot (splitPivot tokens).1 := by
  induction tokens with
  | nil => simp [splitPivot, NoPivot]
  | cons token rest ih =>
    intro other hOther
    rw [splitPivot] at hOther
    split at hOther
    · simp at hOther
    · rename_i hToken
      rcases List.mem_cons.mp hOther with rfl | hOther
      · exact hToken
      · exact ih other hOther

theorem splitPivot_none {tokens before : List Token} (h : splitPivot tokens = (before, none)) :
    tokens = before := by
  induction tokens generalizing before with
  | nil => cases h; rfl
  | cons token rest ih =>
    rw [splitPivot] at h
    split at h
    · cases h
    · obtain ⟨rfl, hNone⟩ := Prod.mk.inj h
      exact congrArg _ (ih (Prod.ext rfl hNone))

theorem pivot?_splitPivot {tokens before : List Token} {decision : Decision}
    (h : splitPivot tokens = (before, some decision)) :
    pivot? decision.token = some decision.pivot := by
  induction tokens generalizing before with
  | nil => cases h
  | cons token rest ih =>
    rw [splitPivot] at h
    split at h
    · rename_i hToken
      cases h
      exact hToken
    · obtain ⟨rfl, hSome⟩ := Prod.mk.inj h
      exact ih (Prod.ext rfl hSome)

/-! ## Calls -/

/-- Arguments in parentheses. -/
inductive Enclosed (groups : List (List Token)) : List Token → Prop
  | intro {paren close : Token} {inside : List Token} (hOpen : paren.kind = .openParen)
    (hInside : Token.ArgumentList 0 groups inside) (hClose : close.kind = .closeParen) :
    Enclosed groups (paren :: (inside ++ [close]))

/-- The arguments of a call are made of its tokens. -/
theorem Enclosed.forall_mem {groups : List (List Token)} {tokens : List Token}
    {property : Token → Prop} (h : Enclosed groups tokens)
    (hTokens : ∀ token ∈ tokens, property token) :
    ∀ group ∈ groups, ∀ token ∈ group, property token := by
  obtain ⟨_, hInside, _⟩ := h
  intro group hGroup token hToken
  have hInner := hInside.subset group hGroup hToken
  exact hTokens token (List.mem_cons_of_mem _ (List.mem_append_left _ hInner))

theorem readCall_eq_ok_iff {callee : Callee} {keyword : Token} {rest after : List Token}
    {arguments : Arguments} :
    readCall callee keyword rest = .ok (arguments, after) ↔
      Arguments.ofGroups? callee arguments.groups = some arguments ∧
        ∃ tokens, Enclosed arguments.groups tokens ∧ rest = tokens ++ after := by
  constructor
  · intro h
    unfold readCall at h
    split at h
    · cases h
    · rename_i paren inner
      split at h
      · rename_i hOpen
        split at h
        · cases h
        · rename_i index hIndex
          obtain ⟨inside, close, behind, rfl, rfl, hClose, hInside⟩ :=
            Token.argumentList_of_closing? hIndex
          dsimp only at h
          rw [List.take_left] at h
          split at h
          · rename_i found hFound
            cases h
            have hGroups := Arguments.groups_ofGroups? hFound
            refine ⟨hGroups ▸ hFound, paren :: (inside ++ [close]), ?_, ?_⟩
            · rw [hGroups]
              exact .intro hOpen hInside hClose
            · simp
          · cases h
      · cases h
  · rintro ⟨hGroups, tokens, hTokens, rfl⟩
    obtain ⟨hOpen, hInside, hClose⟩ := hTokens
    rename_i paren close inside
    have hClosing := hInside.closing? hClose after
    have hSplit : Token.splitTopLevel .comma inside = arguments.groups := hInside.splitAtDepth
    simp only [readCall, List.cons_append, List.append_assoc, List.nil_append, if_pos hOpen,
      hClosing, List.take_left, hSplit, hGroups]
    simp

/-! ## The parser, case by case -/

/-- The arguments of a call, read from left to right. -/
def parseArguments : Arguments → Except SyntaxError Expr
  | .sum lower upper body => do
    let lower ← parse lower
    let upper ← parse upper
    let body ← parse body
    return .sum lower upper body
  | .frac numerator denominator => do
    let numerator ← parse numerator
    let denominator ← parse denominator
    return .fraction numerator denominator

/-- A call with the text in front of it. -/
def attach (before : List Token) (call : Expr) : Expr :=
  if before.isEmpty then call else juxtapose (.identifier (Token.stringify before)) call

/-- What is read when a call is followed by some tokens. -/
def proceed (node : Expr) : List Token → Except SyntaxError Expr
  | [] => .ok node
  | token :: tail =>
    if token.kind = .plus then return .plus node (← parse tail)
    else if token.kind = .equals then return .equation node (← parse tail)
    else return juxtapose node (← parse (token :: tail))

section Cases

variable {tokens before rest : List Token} {token : Token}

theorem parse_plain (h : splitPivot tokens = (before, none)) :
    parse tokens = .ok (.identifier (Token.stringify before)) := by
  rw [parse]
  split <;> simp_all

theorem parse_plus (h : splitPivot tokens = (before, some ⟨.plus, token, rest⟩)) :
    parse tokens = (do return .plus (.identifier (Token.stringify before)) (← parse rest)) := by
  rw [parse]
  split <;> simp_all

theorem parse_equals (h : splitPivot tokens = (before, some ⟨.equals, token, rest⟩)) :
    parse tokens =
      (do return .equation (.identifier (Token.stringify before)) (← parse rest)) := by
  rw [parse]
  split <;> simp_all

theorem parse_call_error {callee : Callee} {e : SyntaxError}
    (h : splitPivot tokens = (before, some ⟨.call callee, token, rest⟩))
    (hCall : readCall callee token rest = .error e) : parse tokens = .error e := by
  rw [parse]
  split
  · simp_all
  · simp_all
  · simp_all
  · rename_i hSplit
    rw [h] at hSplit
    cases hSplit
    split <;> simp_all

theorem parse_call {callee : Callee} {arguments : Arguments} {after : List Token}
    (h : splitPivot tokens = (before, some ⟨.call callee, token, rest⟩))
    (hCall : readCall callee token rest = .ok (arguments, after)) :
    parse tokens = (do proceed (attach before (← parseArguments arguments)) after) := by
  rw [parse]
  split
  · simp_all
  · simp_all
  · simp_all
  · rename_i hSplit
    rw [h] at hSplit
    cases hSplit
    split
    · simp_all
    · rename_i hRead
      rw [hCall] at hRead
      cases hRead
      cases arguments with
      | sum lower upper body =>
        simp only [parseArguments, bind_assoc, pure_bind]
        cases after <;> rfl
      | frac numerator denominator =>
        simp only [parseArguments, bind_assoc, pure_bind]
        cases after <;> rfl

end Cases

/-! ## The grammar -/

/-- The forms of token lists that differ in what can follow them. -/
inductive Form where
  | plain
  | call
  | chain

/-- A token that goes on with an operator. -/
def IsOperator (token : Token) : Prop := token.kind = .plus ∨ token.kind = .equals

/-- The expression of a token list. -/
inductive Reads : Form → List Token → Expr → Prop
  | identifier {before : List Token} (hBefore : NoPivot before) :
    Reads .plain before (.identifier (Token.stringify before))
  | sum {before lower upper body tokens : List Token} {keyword : Token} {l u b : Expr}
    {fl fu fb : Form} (hBefore : NoPivot before) (hKeyword : pivot? keyword = some (.call .sum))
    (hTokens : Enclosed [lower, upper, body] tokens) (hLower : Reads fl lower l)
    (hUpper : Reads fu upper u) (hBody : Reads fb body b) :
    Reads .call (before ++ keyword :: tokens) (attach before (.sum l u b))
  | fraction {before numerator denominator tokens : List Token} {keyword : Token} {n d : Expr}
    {fn fd : Form} (hBefore : NoPivot before) (hKeyword : pivot? keyword = some (.call .frac))
    (hTokens : Enclosed [numerator, denominator] tokens) (hNumerator : Reads fn numerator n)
    (hDenominator : Reads fd denominator d) :
    Reads .call (before ++ keyword :: tokens) (attach before (.fraction n d))
  | plus {left right : List Token} {operator : Token} {l r : Expr} {fl fr : Form}
    (hForm : fl ≠ .chain) (hLeft : Reads fl left l) (hOperator : operator.kind = .plus)
    (hRight : Reads fr right r) : Reads .chain (left ++ operator :: right) (.plus l r)
  | equation {left right : List Token} {operator : Token} {l r : Expr} {fl fr : Form}
    (hForm : fl ≠ .chain) (hLeft : Reads fl left l) (hOperator : operator.kind = .equals)
    (hRight : Reads fr right r) : Reads .chain (left ++ operator :: right) (.equation l r)
  | juxtapose {left right : List Token} {first : Token} {l r : Expr} {fr : Form}
    (hLeft : Reads .call left l) (hFirst : ¬ IsOperator first)
    (hRight : Reads fr (first :: right) r) :
    Reads .chain (left ++ first :: right) (juxtapose l r)

theorem pivot?_of_plus {token : Token} (h : token.kind = .plus) : pivot? token = some .plus := by
  rw [pivot?, h]

theorem pivot?_of_equals {token : Token} (h : token.kind = .equals) :
    pivot? token = some .equals := by
  rw [pivot?, h]

theorem kind_of_pivot?_plus {token : Token} (h : pivot? token = some .plus) :
    token.kind = .plus := by
  unfold pivot? at h
  split at h <;> simp_all

theorem kind_of_pivot?_equals {token : Token} (h : pivot? token = some .equals) :
    token.kind = .equals := by
  unfold pivot? at h
  split at h <;> simp_all

theorem pivot?_eq_call_iff {token : Token} {callee : Callee} :
    pivot? token = some (.call callee) ↔
      token.kind = .identifier ∧ token.text = callee.keyword := by
  constructor
  · intro h
    unfold pivot? at h
    split at h
    · cases h
    · cases h
    · rename_i hKind
      obtain ⟨found, hFound, hCallee⟩ := Option.map_eq_some_iff.mp h
      cases hCallee
      unfold Callee.ofKeyword? at hFound
      refine ⟨hKind, ?_⟩
      split at hFound
      · rename_i hText
        cases hFound
        exact hText
      · split at hFound
        · rename_i hText
          cases hFound
          exact hText
        · cases hFound
    · cases h
  · rintro ⟨hKind, hText⟩
    rw [pivot?, hKind, hText]
    cases callee <;> rfl

/-! ## Every derivation is found -/

/-- What the parser does with the tokens of a derivation. Behind a call it can go on. -/
def Parsed : Form → List Token → Expr → Prop
  | .plain, tokens, e => NoPivot tokens ∧ e = .identifier (Token.stringify tokens)
  | .call, tokens, e => ∀ after, parse (tokens ++ after) = proceed e after
  | .chain, tokens, e => parse tokens = .ok e

theorem Parsed.parse {form : Form} {tokens : List Token} {e : Expr} (h : Parsed form tokens e) :
    parse tokens = .ok e := by
  cases form with
  | plain => rw [parse_plain (splitPivot_of_noPivot h.1), h.2]
  | call =>
    have hNone := h []
    rwa [List.append_nil] at hNone
  | chain => exact h

theorem parsed_call {before tokens : List Token} {keyword : Token} {callee : Callee}
    (arguments : Arguments) {call : Expr} (hBefore : NoPivot before)
    (hKeyword : pivot? keyword = some (.call callee))
    (hGroups : Arguments.ofGroups? callee arguments.groups = some arguments)
    (hTokens : Enclosed arguments.groups tokens) (hCall : parseArguments arguments = .ok call) :
    Parsed .call (before ++ keyword :: tokens) (attach before call) := by
  intro after
  have hRead : readCall callee keyword (tokens ++ after) = .ok (arguments, after) :=
    readCall_eq_ok_iff.mpr ⟨hGroups, tokens, hTokens, rfl⟩
  rw [List.append_assoc, List.cons_append, parse_call (splitPivot_at hBefore hKeyword _) hRead,
    hCall]
  rfl

theorem Reads.parsed {form : Form} {tokens : List Token} {e : Expr} (h : Reads form tokens e) :
    Parsed form tokens e := by
  induction h with
  | identifier hBefore => exact ⟨hBefore, rfl⟩
  | @sum _ lower upper body _ _ l u b _ _ _ hBefore hKeyword hTokens _ _ _ ihl ihu ihb =>
    have hCall : parseArguments (.sum lower upper body) = .ok (.sum l u b) := by
      rw [parseArguments, ihl.parse, ihu.parse, ihb.parse]
      rfl
    exact parsed_call (.sum lower upper body) hBefore hKeyword rfl hTokens hCall
  | @fraction _ numerator denominator _ _ n d _ _ hBefore hKeyword hTokens _ _ ihn ihd =>
    have hCall : parseArguments (.frac numerator denominator) = .ok (.fraction n d) := by
      rw [parseArguments, ihn.parse, ihd.parse]
      rfl
    exact parsed_call (.frac numerator denominator) hBefore hKeyword rfl hTokens hCall
  | @plus left right operator l r fl _ hForm _ hOperator _ ihl ihr =>
    cases fl with
    | plain =>
      obtain ⟨hLeft, rfl⟩ := ihl
      show parse _ = _
      rw [parse_plus (splitPivot_at hLeft (pivot?_of_plus hOperator) right), ihr.parse]
      rfl
    | call =>
      show parse _ = _
      rw [ihl (operator :: right), proceed, if_pos hOperator, ihr.parse]
      rfl
    | chain => exact absurd rfl hForm
  | @equation left right operator l r fl _ hForm _ hOperator _ ihl ihr =>
    cases fl with
    | plain =>
      obtain ⟨hLeft, rfl⟩ := ihl
      show parse _ = _
      rw [parse_equals (splitPivot_at hLeft (pivot?_of_equals hOperator) right), ihr.parse]
      rfl
    | call =>
      show parse _ = _
      rw [ihl (operator :: right), proceed, if_neg (by simp [hOperator]), if_pos hOperator,
        ihr.parse]
      rfl
    | chain => exact absurd rfl hForm
  | @juxtapose left right first l r _ _ hFirst _ ihl ihr =>
    show parse _ = _
    rw [ihl (first :: right), proceed, if_neg fun h => hFirst (Or.inl h),
      if_neg fun h => hFirst (Or.inr h), ihr.parse]
    rfl

/-! ## Every result is derived -/

theorem reads_call {before rest after : List Token} {keyword : Token} {callee : Callee}
    {arguments : Arguments} {call : Expr} (hBefore : NoPivot before)
    (hKeyword : pivot? keyword = some (.call callee))
    (hRead : readCall callee keyword rest = .ok (arguments, after))
    (hArguments : ∀ group ∈ arguments.groups, ∀ e, parse group = .ok e → ∃ form, Reads form group e)
    (hCall : parseArguments arguments = .ok call) :
    ∃ tokens, rest = tokens ++ after ∧
      Reads .call (before ++ keyword :: tokens) (attach before call) := by
  obtain ⟨hGroups, tokens, hTokens, rfl⟩ := readCall_eq_ok_iff.mp hRead
  refine ⟨tokens, rfl, ?_⟩
  cases arguments with
  | sum lower upper body =>
    obtain rfl : callee = .sum := by
      cases callee with
      | sum => rfl
      | frac => cases hGroups
    obtain ⟨l, hl, hCall⟩ := exists_of_bind_eq_ok hCall
    obtain ⟨u, hu, hCall⟩ := exists_of_bind_eq_ok hCall
    obtain ⟨b, hb, hCall⟩ := exists_of_bind_eq_ok hCall
    obtain ⟨_, hl⟩ := hArguments lower (by simp [Arguments.groups]) l hl
    obtain ⟨_, hu⟩ := hArguments upper (by simp [Arguments.groups]) u hu
    obtain ⟨_, hb⟩ := hArguments body (by simp [Arguments.groups]) b hb
    cases hCall
    exact .sum hBefore hKeyword hTokens hl hu hb
  | frac numerator denominator =>
    obtain rfl : callee = .frac := by
      cases callee with
      | sum => cases hGroups
      | frac => rfl
    obtain ⟨n, hn, hCall⟩ := exists_of_bind_eq_ok hCall
    obtain ⟨d, hd, hCall⟩ := exists_of_bind_eq_ok hCall
    obtain ⟨_, hn⟩ := hArguments numerator (by simp [Arguments.groups]) n hn
    obtain ⟨_, hd⟩ := hArguments denominator (by simp [Arguments.groups]) d hd
    cases hCall
    exact .fraction hBefore hKeyword hTokens hn hd

theorem reads_proceed {left after : List Token} {node e : Expr} (hLeft : Reads .call left node)
    (hAfter : ∀ tokens, tokens.length ≤ after.length → ∀ e, parse tokens = .ok e →
      ∃ form, Reads form tokens e)
    (h : proceed node after = .ok e) : ∃ form, Reads form (left ++ after) e := by
  cases after with
  | nil =>
    cases h
    rw [List.append_nil]
    exact ⟨_, hLeft⟩
  | cons first right =>
    rw [proceed] at h
    split at h
    · rename_i hPlus
      obtain ⟨r, hr, h⟩ := exists_of_bind_eq_ok h
      obtain ⟨_, hRight⟩ := hAfter right (by simp) r hr
      cases h
      exact ⟨_, .plus (by simp) hLeft hPlus hRight⟩
    · rename_i hPlus
      split at h
      · rename_i hEquals
        obtain ⟨r, hr, h⟩ := exists_of_bind_eq_ok h
        obtain ⟨_, hRight⟩ := hAfter right (by simp) r hr
        cases h
        exact ⟨_, .equation (by simp) hLeft hEquals hRight⟩
      · rename_i hEquals
        obtain ⟨r, hr, h⟩ := exists_of_bind_eq_ok h
        obtain ⟨_, hRight⟩ := hAfter (first :: right) (Nat.le_refl _) r hr
        cases h
        exact ⟨_, .juxtapose hLeft (fun h => h.elim hPlus hEquals) hRight⟩

theorem reads_of_parse {tokens : List Token} {e : Expr} (h : parse tokens = .ok e) :
    ∃ form, Reads form tokens e := by
  -- the parser only goes on with shorter lists
  generalize hLength : tokens.length = n
  induction n using Nat.strongRecOn generalizing tokens e with
  | ind n ih =>
    rcases hSplit : splitPivot tokens with ⟨before, decision⟩
    have hBefore : NoPivot before := by
      have := noPivot_splitPivot tokens
      rwa [hSplit] at this
    cases decision with
    | none =>
      obtain rfl := splitPivot_none hSplit
      rw [parse_plain hSplit] at h
      cases h
      exact ⟨_, .identifier hBefore⟩
    | some decision =>
      have hRest := hLength ▸ splitPivot_length hSplit
      have hPivot := pivot?_splitPivot hSplit
      obtain rfl := splitPivot_append hSplit
      obtain ⟨pivot, token, rest⟩ := decision
      dsimp only at hRest hPivot
      cases pivot with
      | plus =>
        rw [parse_plus hSplit] at h
        obtain ⟨r, hr, h⟩ := exists_of_bind_eq_ok h
        obtain ⟨_, hRight⟩ := ih rest.length hRest hr rfl
        cases h
        exact ⟨_, .plus (by simp) (.identifier hBefore) (kind_of_pivot?_plus hPivot) hRight⟩
      | equals =>
        rw [parse_equals hSplit] at h
        obtain ⟨r, hr, h⟩ := exists_of_bind_eq_ok h
        obtain ⟨_, hRight⟩ := ih rest.length hRest hr rfl
        cases h
        exact ⟨_, .equation (by simp) (.identifier hBefore) (kind_of_pivot?_equals hPivot) hRight⟩
      | call callee =>
        cases hRead : readCall callee token rest with
        | error fault =>
          rw [parse_call_error hSplit hRead] at h
          cases h
        | ok result =>
          obtain ⟨arguments, after⟩ := result
          obtain ⟨hAfter, hGroups⟩ := readCall_length hRead
          rw [parse_call hSplit hRead] at h
          obtain ⟨call, hCall, h⟩ := exists_of_bind_eq_ok h
          have hShorter : ∀ group ∈ arguments.groups, ∀ e, parse group = .ok e →
              ∃ form, Reads form group e := by
            intro group hGroup e he
            have := hGroups group hGroup
            exact ih group.length (by omega) he rfl
          obtain ⟨inner, rfl, hLeft⟩ := reads_call hBefore hPivot hRead hShorter hCall
          have hReads := reads_proceed hLeft (fun later hLater e he =>
            ih later.length (by omega) he rfl) h
          rwa [List.append_assoc, List.cons_append] at hReads

theorem parse_eq_ok_iff {tokens : List Token} {e : Expr} :
    parse tokens = .ok e ↔ ∃ form, Reads form tokens e :=
  ⟨reads_of_parse, fun ⟨_, h⟩ => h.parsed.parse⟩

end ProseMath.Expr

namespace ProseMath.Equation

theorem parse_eq_ok_iff {tokens : List Token} {e : Equation} :
    parse tokens = .ok e ↔
      ∃ left sign right, tokens = left ++ sign :: right ∧ sign.kind = .equals ∧
        Token.nesting left = 0 ∧ Token.EachAt .equals (· ≠ 0) 0 left ∧
        Expr.parse left = .ok e.lhs ∧ Expr.parse right = .ok e.rhs := by
  constructor
  · intro h
    unfold parse at h
    split at h
    · rename_i left right hSplit
      obtain ⟨sign, hSign, rfl, hLevel, hNone⟩ := Token.splitEquals?_eq_some_iff.mp hSplit
      obtain ⟨lhs, hLeft, h⟩ := Expr.exists_of_bind_eq_ok h
      obtain ⟨rhs, hRight, h⟩ := Expr.exists_of_bind_eq_ok h
      cases h
      exact ⟨left, sign, right, rfl, hSign, by omega, hNone, hLeft, hRight⟩
    · cases h
  · rintro ⟨left, sign, right, rfl, hSign, hLevel, hNone, hLeft, hRight⟩
    have hSplit : Token.splitEquals? 0 (left ++ sign :: right) = some (left, right) :=
      Token.splitEquals?_eq_some_iff.mpr ⟨sign, hSign, rfl, by omega, hNone⟩
    simp only [parse, hSplit, hLeft, hRight]
    rfl

end ProseMath.Equation
