import Mathlib.Tactic.Common
import ProseMath.Token.Group

/-!
# Argument lists

The tokens between the parentheses of a call are cut at the commas outside inner parentheses. An
argument (`IsArgument`) closes all parentheses it opens and has no comma outside them; an argument
list (`ArgumentList`) is a list of arguments joined by commas. Both are stated for tokens that stand
behind some open parentheses, so that they can be followed token by token.

* `ArgumentList.splitAtDepth`: cutting an argument list gives its arguments.
* `ArgumentList.closing?`: the parenthesis behind an argument list is the one that closes it.
* `argumentList_of_closing?`: what stands before a closing parenthesis is an argument list.
-/

namespace ProseMath.Token

/-- Tokens that close `depth` parentheses and all those they open, with no comma outside
parentheses. -/
inductive IsArgument : Nat → List Token → Prop
  | nil : IsArgument 0 []
  | opened {depth : Nat} {token : Token} {rest : List Token} (hKind : token.kind = .openParen)
    (hRest : IsArgument (depth + 1) rest) : IsArgument depth (token :: rest)
  | closed {depth : Nat} {token : Token} {rest : List Token} (hKind : token.kind = .closeParen)
    (hRest : IsArgument depth rest) : IsArgument (depth + 1) (token :: rest)
  | other {depth : Nat} {token : Token} {rest : List Token} (hOpen : token.kind ≠ .openParen)
    (hClose : token.kind ≠ .closeParen) (hComma : token.kind = .comma → depth ≠ 0)
    (hRest : IsArgument depth rest) : IsArgument depth (token :: rest)

/-- Groups of tokens and the tokens that they make up when commas are put between them. All groups
are arguments, the first of them behind `depth` open parentheses. -/
inductive ArgumentList : Nat → List (List Token) → List Token → Prop
  | one {depth : Nat} {group : List Token} (hGroup : IsArgument depth group) :
    ArgumentList depth [group] group
  | more {depth : Nat} {group : List Token} {comma : Token} {groups : List (List Token)}
    {tokens : List Token} (hGroup : IsArgument depth group) (hComma : comma.kind = .comma)
    (hRest : ArgumentList 0 groups tokens) :
    ArgumentList depth (group :: groups) (group ++ comma :: tokens)

/-! ## Closing parentheses, token by token -/

section Closing

variable {token : Token} (depth : Nat) (rest : List Token)

theorem closing?_opened (h : token.kind = .openParen) :
    closing? depth (token :: rest) = (closing? (depth + 1) rest).map (· + 1) := by
  rw [closing?.eq_def]
  exact if_pos h

theorem closing?_closed_zero (h : token.kind = .closeParen) :
    closing? 0 (token :: rest) = some 0 := by
  rw [closing?.eq_def]
  exact (if_neg (by simp [h])).trans (if_pos h)

theorem closing?_closed_succ (h : token.kind = .closeParen) :
    closing? (depth + 1) (token :: rest) = (closing? depth rest).map (· + 1) := by
  rw [closing?.eq_def]
  exact (if_neg (by simp [h])).trans (if_pos h)

theorem closing?_other (hOpen : token.kind ≠ .openParen) (hClose : token.kind ≠ .closeParen) :
    closing? depth (token :: rest) = (closing? depth rest).map (· + 1) := by
  rw [closing?.eq_def]
  exact (if_neg hOpen).trans (if_neg hClose)

end Closing

/-! ## Reading over an argument -/

theorem closing?_argument {depth : Nat} {group : List Token} (h : IsArgument depth group)
    (rest : List Token) :
    closing? depth (group ++ rest) = (closing? 0 rest).map (· + group.length) := by
  induction h with
  | nil => simp
  | opened hKind _ ih =>
    rw [List.cons_append, closing?_opened _ _ hKind, ih, Option.map_map]
    rfl
  | closed hKind _ ih =>
    rw [List.cons_append, closing?_closed_succ _ _ hKind, ih, Option.map_map]
    rfl
  | other hOpen hClose _ _ ih =>
    rw [List.cons_append, closing?_other _ _ hOpen hClose, ih, Option.map_map]
    rfl

theorem splitAtDepth_argument {depth : Nat} {group : List Token} (h : IsArgument depth group)
    (rest : List Token) :
    splitAtDepth .comma depth (group ++ rest) =
      group.foldr consGroup (splitAtDepth .comma 0 rest) := by
  induction h with
  | nil => rfl
  | opened hKind _ ih =>
    rw [List.cons_append, splitAtDepth, if_pos hKind, List.foldr_cons, ← ih]
    rfl
  | @closed depth _ _ hKind _ ih =>
    have hDepth : ((depth + 1 : Nat) : Int) - 1 = (depth : Int) := by omega
    rw [List.cons_append, splitAtDepth, if_neg (by simp [hKind]), if_pos hKind, hDepth,
      List.foldr_cons, ← ih]
  | other hOpen hClose hComma _ ih =>
    rw [List.cons_append, splitAtDepth, if_neg hOpen, if_neg hClose, if_neg, List.foldr_cons, ← ih]
    rintro ⟨hKind, hDepth⟩
    exact hComma hKind (by omega)

theorem foldr_consGroup (group first : List Token) (groups : List (List Token)) :
    group.foldr consGroup (first :: groups) = (group ++ first) :: groups := by
  induction group with
  | nil => rfl
  | cons token group ih => rw [List.foldr_cons, ih]; rfl

/-! ## Cutting and closing an argument list -/

namespace ArgumentList

variable {depth : Nat} {groups : List (List Token)} {tokens : List Token}

theorem splitAtDepth (h : ArgumentList depth groups tokens) :
    splitAtDepth .comma depth tokens = groups := by
  induction h with
  | one hGroup =>
    rename_i group
    have hSplit := splitAtDepth_argument hGroup []
    rw [List.append_nil, Token.splitAtDepth, foldr_consGroup, List.append_nil] at hSplit
    exact hSplit
  | more hGroup hComma _ ih =>
    rw [splitAtDepth_argument hGroup, Token.splitAtDepth, if_neg (by simp [hComma]),
      if_neg (by simp [hComma]), if_pos ⟨hComma, rfl⟩, foldr_consGroup, List.append_nil]
    exact congrArg _ ih

theorem closing? (h : ArgumentList depth groups tokens) {close : Token}
    (hClose : close.kind = .closeParen) (after : List Token) :
    closing? depth (tokens ++ close :: after) = some tokens.length := by
  induction h with
  | one hGroup =>
    rw [closing?_argument hGroup, closing?_closed_zero _ hClose]
    simp
  | more hGroup hComma _ ih =>
    rw [List.append_assoc, closing?_argument hGroup, List.cons_append,
      closing?_other _ _ (by simp [hComma]) (by simp [hComma]), ih]
    simp only [Option.map_some, List.length_append, List.length_cons, Option.some.injEq]
    omega

theorem subset (h : ArgumentList depth groups tokens) : ∀ group ∈ groups, group ⊆ tokens := by
  induction h with
  | one _ => simp
  | more _ _ _ ih =>
    refine List.forall_mem_cons.mpr ⟨List.subset_append_left _ _, ?_⟩
    intro group hGroup token hToken
    have hRest := ih group hGroup hToken
    exact List.mem_append_right _ (List.mem_cons_of_mem _ hRest)

/-! ## One token more -/

theorem opened {token : Token} (hKind : token.kind = .openParen)
    (h : ArgumentList (depth + 1) groups tokens) :
    ArgumentList depth (consGroup token groups) (token :: tokens) := by
  cases h with
  | one hGroup => exact .one (.opened hKind hGroup)
  | more hGroup hComma hRest => exact .more (.opened hKind hGroup) hComma hRest

theorem closed {token : Token} (hKind : token.kind = .closeParen)
    (h : ArgumentList depth groups tokens) :
    ArgumentList (depth + 1) (consGroup token groups) (token :: tokens) := by
  cases h with
  | one hGroup => exact .one (.closed hKind hGroup)
  | more hGroup hComma hRest => exact .more (.closed hKind hGroup) hComma hRest

theorem other {token : Token} (hOpen : token.kind ≠ .openParen)
    (hClose : token.kind ≠ .closeParen) (hComma : token.kind = .comma → depth ≠ 0)
    (h : ArgumentList depth groups tokens) :
    ArgumentList depth (consGroup token groups) (token :: tokens) := by
  cases h with
  | one hGroup => exact .one (.other hOpen hClose hComma hGroup)
  | more hGroup hNext hRest => exact .more (.other hOpen hClose hComma hGroup) hNext hRest

end ArgumentList

/-- What stands before the parenthesis that closes `depth` others and one more. -/
theorem argumentList_of_closing? {depth : Nat} {tokens : List Token} {index : Nat}
    (h : closing? depth tokens = some index) :
    ∃ inside close after, tokens = inside ++ close :: after ∧ inside.length = index ∧
      close.kind = .closeParen ∧
      ArgumentList depth (splitAtDepth .comma depth inside) inside := by
  induction tokens generalizing depth index with
  | nil => cases h
  | cons token rest ih =>
    unfold closing? at h
    split at h
    · rename_i hOpen
      obtain ⟨i, hi, rfl⟩ := Option.map_eq_some_iff.mp h
      obtain ⟨inside, close, after, rfl, rfl, hClose, hList⟩ := ih hi
      refine ⟨token :: inside, close, after, rfl, rfl, hClose, ?_⟩
      rw [splitAtDepth, if_pos hOpen]
      exact hList.opened hOpen
    · rename_i hOpen
      split at h
      · rename_i hClose
        split at h
        · cases h
          exact ⟨[], token, rest, rfl, rfl, hClose, .one .nil⟩
        · rename_i depth
          obtain ⟨i, hi, rfl⟩ := Option.map_eq_some_iff.mp h
          obtain ⟨inside, close, after, rfl, rfl, hLast, hList⟩ := ih hi
          have hDepth : ((depth + 1 : Nat) : Int) - 1 = (depth : Int) := by omega
          refine ⟨token :: inside, close, after, rfl, rfl, hLast, ?_⟩
          rw [splitAtDepth, if_neg hOpen, if_pos hClose, hDepth]
          exact hList.closed hClose
      · rename_i hClose
        obtain ⟨i, hi, rfl⟩ := Option.map_eq_some_iff.mp h
        obtain ⟨inside, close, after, rfl, rfl, hLast, hList⟩ := ih hi
        refine ⟨token :: inside, close, after, rfl, rfl, hLast, ?_⟩
        rw [splitAtDepth, if_neg hOpen, if_neg hClose]
        split
        · rename_i hComma
          obtain ⟨hComma, hDepth⟩ := hComma
          obtain rfl : depth = 0 := by omega
          exact .more .nil hComma hList
        · rename_i hComma
          refine hList.other hOpen hClose ?_
          rintro hKind rfl
          exact hComma ⟨hKind, rfl⟩

end ProseMath.Token
