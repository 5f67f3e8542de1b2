import Mathlib.Data.List.Basic
import Mathlib.Tactic.Common
import ProseMath.Proofs.Expr.Grammar

/-!
# Malformed calls

The only faults of an expression are those of its calls, and whether a call is well formed
(`WellFormed`) can be told from the tokens behind its keyword, wherever the parser meets it. The
parser cuts tokens at operators and commas and at the ends of calls; none of this changes what a
keyword finds behind it.

* `readCall_eq_error_iff`: what is wrong with a call that is not well formed.
* `firstFault_argument`: an argument has the same faults with and without what follows it.
* `fault?_parse`: the parser meets the faults from left to right.
* `parse_reports_leftmost_fault`: the parser reports the leftmost keyword that is not well formed.
-/

namespace ProseMath.Expr

/-! ## Well-formed calls -/

/-- The tokens behind a keyword start with a parenthesis that is closed, and there are as many
arguments between the two as the form takes. -/
structure WellFormed (callee : Callee) (rest : List Token) : Prop where
  opened : rest.head?.map Token.kind = some .openParen
  closed : ∃ index, Token.ClosesAt 0 rest.tail index ∧
    Token.countAt .comma 0 (rest.tail.take index) + 1 = callee.arity

/-- What is wrong with a call, where `rest` stands behind its keyword. -/
inductive CallFault (callee : Callee) (keyword : Token) : List Token → SyntaxError → Prop
  | notFollowed {rest : List Token} (hOpen : rest.head?.map Token.kind ≠ some .openParen) :
    CallFault callee keyword rest ⟨.notFollowedByOpen callee, some keyword.offset⟩
  | unclosed {paren : Token} {inner : List Token} (hOpen : paren.kind = .openParen)
    (hClose : ∀ index, ¬ Token.ClosesAt 0 inner index) :
    CallFault callee keyword (paren :: inner) ⟨.unclosedCall callee, some paren.offset⟩
  | arity {paren : Token} {inner : List Token} {index : Nat} (hOpen : paren.kind = .openParen)
    (hClose : Token.ClosesAt 0 inner index)
    (hArity : Token.countAt .comma 0 (inner.take index) + 1 ≠ callee.arity) :
    CallFault callee keyword (paren :: inner)
      ⟨.wrongArity callee (Token.countAt .comma 0 (inner.take index) + 1), some keyword.offset⟩

theorem CallFault.kind {callee : Callee} {keyword : Token} {rest : List Token} {e : SyntaxError}
    (h : CallFault callee keyword rest e) : e.fault.kind = .malformedCall := by
  cases h <;> rfl

theorem Arguments.exists_ofGroups?_iff {callee : Callee} {groups : List (List Token)} :
    (∃ arguments, ofGroups? callee groups = some arguments) ↔ groups.length = callee.arity := by
  cases callee with
  | sum =>
    constructor
    · rintro ⟨arguments, h⟩
      unfold ofGroups? at h
      split at h <;> simp_all [Callee.arity]
    · intro h
      obtain ⟨lower, upper, body, rfl⟩ := List.length_eq_three.mp h
      exact ⟨_, rfl⟩
  | frac =>
    constructor
    · rintro ⟨arguments, h⟩
      unfold ofGroups? at h
      split at h <;> simp_all [Callee.arity]
    · intro h
      obtain ⟨numerator, denominator, rfl⟩ := List.length_eq_two.mp h
      exact ⟨_, rfl⟩

theorem closing?_eq_none_iff {inner : List Token} :
    Token.closing? 0 inner = none ↔ ∀ index, ¬ Token.ClosesAt 0 inner index := by
  rw [Option.eq_none_iff_forall_ne_some]
  exact forall_congr' fun index => not_congr Token.closing?_eq_some_iff

section ReadCall

variable {callee : Callee} {keyword : Token} {rest : List Token}

theorem length_groups (inside : List Token) :
    (Token.splitTopLevel .comma inside).length = Token.countAt .comma 0 inside + 1 :=
  Token.length_splitAtDepth (by simp) (by simp) 0 inside

theorem readCall_eq_error_iff {e : SyntaxError} :
    readCall callee keyword rest = .error e ↔ CallFault callee keyword rest e := by
  constructor
  · intro h
    unfold readCall at h
    split at h
    · cases h
      exact .notFollowed (by simp)
    · rename_i paren inner
      split at h
      · rename_i hOpen
        split at h
        · rename_i hNone
          cases h
          exact .unclosed hOpen (closing?_eq_none_iff.mp hNone)
        · rename_i index hIndex
          dsimp only at h
          split at h
          · cases h
          · rename_i hGroups
            cases h
            rw [length_groups]
            refine .arity hOpen (Token.closing?_eq_some_iff.mp hIndex) fun hArity => ?_
            rw [← length_groups] at hArity
            obtain ⟨arguments, hSome⟩ := Arguments.exists_ofGroups?_iff.mpr hArity
            rw [hGroups] at hSome
            cases hSome
      · rename_i hOpen
        cases h
        exact .notFollowed (by simpa using hOpen)
  · intro h
    cases h with
    | notFollowed hOpen =>
      cases rest with
      | nil => rfl
      | cons paren inner => rw [readCall, if_neg (by simpa using hOpen)]
    | unclosed hOpen hClose => rw [readCall, if_pos hOpen, closing?_eq_none_iff.mpr hClose]
    | arity hOpen hClose hArity =>
      rw [← length_groups] at hArity ⊢
      have hNone := mt Arguments.exists_ofGroups?_iff.mp hArity
      rw [readCall, if_pos hOpen, Token.closing?_eq_some_iff.mpr hClose]
      dsimp only
      rw [Option.eq_none_iff_forall_ne_some.mpr (not_exists.mp hNone)]

theorem exists_readCall_eq_ok_iff :
    (∃ result, readCall callee keyword rest = .ok result) ↔ WellFormed callee rest := by
  constructor
  · rintro ⟨result, h⟩
    unfold readCall at h
    split at h
    · cases h
    · split at h
      · rename_i paren inner hOpen
        split at h
        · cases h
        · rename_i index hIndex
          dsimp only at h
          split at h
          · rename_i arguments hGroups
            have hArity := Arguments.exists_ofGroups?_iff.mp ⟨arguments, hGroups⟩
            rw [length_groups] at hArity
            exact ⟨by simp [hOpen], index, Token.closing?_eq_some_iff.mp hIndex, hArity⟩
          · cases h
      · cases h
  · rintro ⟨hOpen, index, hClose, hArity⟩
    cases rest with
    | nil => cases hOpen
    | cons paren inner =>
      rw [← length_groups] at hArity
      obtain ⟨arguments, hGroups⟩ := Arguments.exists_ofGroups?_iff.mpr hArity
      refine ⟨(arguments, inner.drop (index + 1)), ?_⟩
      rw [readCall, if_pos (by simpa using hOpen)]
      rw [List.tail_cons] at hClose hGroups
      rw [Token.closing?_eq_some_iff.mpr hClose]
      dsimp only
      rw [hGroups]

end ReadCall

/-! ## The first fault of some tokens -/

/-- The fault of a result, if it is one. -/
def fault? {α : Type} : Except SyntaxError α → Option SyntaxError
  | .ok _ => none
  | .error e => some e

/-- The fault of the call that some tokens start with. -/
def callFault? : List Token → Option SyntaxError
  | [] => none
  | token :: rest =>
    match pivot? token with
    | some (.call callee) => fault? (readCall callee token rest)
    | _ => none

/-- The first fault of all calls. -/
def firstFault : List Token → Option SyntaxError
  | [] => none
  | token :: rest => (callFault? (token :: rest)).or (firstFault rest)

theorem fault?_bind {α β : Type} {x : Except SyntaxError α} {f : α → Except SyntaxError β}
    {fault : Option SyntaxError} (h : ∀ a, fault? (f a) = fault) :
    fault? (x >>= f) = (fault? x).or fault := by
  cases x with
  | error e => rfl
  | ok a => exact h a

theorem fault?_bind_pure {α β : Type} (x : Except SyntaxError α) (f : α → β) :
    fault? (do return f (← x)) = fault? x := by
  cases x <;> rfl

theorem fault?_eq_some_iff {α : Type} {x : Except SyntaxError α} {e : SyntaxError} :
    fault? x = some e ↔ x = .error e := by
  cases x <;> simp [fault?]

theorem fault?_eq_none_iff {α : Type} {x : Except SyntaxError α} :
    fault? x = none ↔ ∃ a, x = .ok a := by
  cases x <;> simp [fault?]

theorem callFault?_of_call {callee : Callee} {keyword : Token}
    (h : pivot? keyword = some (.call callee)) (rest : List Token) :
    callFault? (keyword :: rest) = fault? (readCall callee keyword rest) := by
  rw [callFault?, h]

theorem callFault?_of_not_call {token : Token} (h : ∀ callee, pivot? token ≠ some (.call callee))
    (rest : List Token) : callFault? (token :: rest) = none := by
  rw [callFault?]
  split
  · rename_i callee hCall
    exact absurd hCall (h callee)
  · rfl

theorem firstFault_of_not_call {token : Token} (h : ∀ callee, pivot? token ≠ some (.call callee))
    (rest : List Token) : firstFault (token :: rest) = firstFault rest := by
  rw [firstFault, callFault?_of_not_call h, Option.none_or]

theorem firstFault_append_noPivot {before : List Token} (h : NoPivot before) (rest : List Token) :
    firstFault (before ++ rest) = firstFault rest := by
  induction before with
  | nil => rfl
  | cons token before ih =>
    have hNone : ∀ callee, pivot? token ≠ some (.call callee) := by
      intro callee
      rw [h token List.mem_cons_self]
      simp
    rw [List.cons_append, firstFault_of_not_call hNone,
      ih fun other hOther => h other (List.mem_cons_of_mem _ hOther)]

/-! ## Faults inside an argument -/

theorem closing?_append {depth : Nat} {a : List Token} {index : Nat}
    (h : Token.closing? depth a = some index) (b : List Token) :
    Token.closing? depth (a ++ b) = some index := by
  obtain ⟨inside, close, after, rfl, rfl, hClose, hInside⟩ := Token.argumentList_of_closing? h
  rw [List.append_assoc]
  exact hInside.closing? hClose (after ++ b)

/-- A parenthesis that is opened in front of an argument and not behind it is closed in it. -/
theorem exists_closing? {depth outer : Nat} {group : List Token}
    (h : Token.IsArgument depth group) (hOuter : outer < depth) :
    ∃ index, Token.closing? outer group = some index := by
  induction h generalizing outer with
  | nil => omega
  | @opened depth token rest hKind _ ih =>
    obtain ⟨index, hIndex⟩ := ih (Nat.succ_lt_succ hOuter)
    exact ⟨index + 1, by rw [Token.closing?_opened _ _ hKind, hIndex]; rfl⟩
  | @closed depth token rest hKind _ ih =>
    cases outer with
    | zero => exact ⟨0, Token.closing?_closed_zero _ hKind⟩
    | succ outer =>
      obtain ⟨index, hIndex⟩ := ih (Nat.lt_of_succ_lt_succ hOuter)
      exact ⟨index + 1, by rw [Token.closing?_closed_succ _ _ hKind, hIndex]; rfl⟩
  | other hOpen hClose _ _ ih =>
    obtain ⟨index, hIndex⟩ := ih hOuter
    exact ⟨index + 1, by rw [Token.closing?_other _ _ hOpen hClose, hIndex]; rfl⟩

section Argument

variable {depth : Nat} {group rest : List Token} {separator : Token}

/-- A call in an argument does not reach over its end. -/
theorem fault?_readCall_append (callee : Callee) (keyword : Token)
    (hGroup : Token.IsArgument depth group) (hSeparator : separator.kind ≠ .openParen) :
    fault? (readCall callee keyword (group ++ separator :: rest)) =
      fault? (readCall callee keyword group) := by
  cases group with
  | nil =>
    rw [List.nil_append]
    exact congrArg fault? (if_neg hSeparator)
  | cons paren inner =>
    rw [List.cons_append, readCall, readCall]
    by_cases hOpen : paren.kind = .openParen
    · have hInner : Token.IsArgument (depth + 1) inner := by
        cases hGroup with
        | opened _ hInner => exact hInner
        | closed hKind _ => simp [hKind] at hOpen
        | other hNot _ _ _ => exact absurd hOpen hNot
      obtain ⟨index, hIndex⟩ := exists_closing? hInner (Nat.succ_pos depth)
      have hLength := Token.closing?_lt hIndex
      rw [if_pos hOpen, if_pos hOpen, closing?_append hIndex, hIndex]
      dsimp only
      rw [List.take_append_of_le_length (by omega)]
      split <;> rfl
    · rw [if_neg hOpen, if_neg hOpen]

theorem callFault?_append (token : Token) (hGroup : Token.IsArgument depth group)
    (hSeparator : separator.kind ≠ .openParen) :
    callFault? (token :: (group ++ separator :: rest)) = callFault? (token :: group) := by
  rw [callFault?, callFault?]
  split
  · exact fault?_readCall_append _ _ hGroup hSeparator
  · rfl

theorem firstFault_argument (hGroup : Token.IsArgument depth group)
    (hSeparator : separator.kind = .comma ∨ separator.kind = .closeParen) :
    firstFault (group ++ separator :: rest) = (firstFault group).or (firstFault rest) := by
  have hOpen : separator.kind ≠ .openParen := by
    rcases hSeparator with h | h <;> simp [h]
  have hNone : ∀ callee, pivot? separator ≠ some (.call callee) := by
    intro callee hCall
    have hKind := (pivot?_eq_call_iff.mp hCall).1
    rcases hSeparator with h | h <;> simp [h] at hKind
  have hStep : ∀ {depth : Nat} {token : Token} {group : List Token}, Token.IsArgument depth group →
      firstFault (group ++ separator :: rest) = (firstFault group).or (firstFault rest) →
      firstFault (token :: group ++ separator :: rest) =
        (firstFault (token :: group)).or (firstFault rest) := by
    intro depth token group hGroup ih
    rw [List.cons_append, firstFault, callFault?_append token hGroup hOpen, ih, firstFault,
      Option.or_assoc]
  induction hGroup with
  | nil => exact firstFault_of_not_call hNone rest
  | opened _ hRest ih => exact hStep hRest ih
  | closed _ hRest ih => exact hStep hRest ih
  | other _ _ _ hRest ih => exact hStep hRest ih

theorem findSome?_cons_or {α β : Type} (f : α → Option β) (a : α) (l : List α) :
    (a :: l).findSome? f = (f a).or (l.findSome? f) := by
  rw [List.findSome?_cons]
  cases f a <;> rfl

theorem firstFault_argumentList {groups : List (List Token)} {inside : List Token}
    (h : Token.ArgumentList depth groups inside) (hClose : separator.kind = .closeParen) :
    firstFault (inside ++ separator :: rest) =
      (groups.findSome? firstFault).or (firstFault rest) := by
  induction h with
  | one hGroup =>
    rw [firstFault_argument hGroup (Or.inr hClose), findSome?_cons_or, List.findSome?_nil,
      Option.or_none]
  | more hGroup hComma _ ih =>
    rw [List.append_assoc, List.cons_append, firstFault_argument hGroup (Or.inl hComma), ih,
      findSome?_cons_or, Option.or_assoc]

end Argument

/-! ## The parser meets the first fault -/

theorem fault?_parseArguments {arguments : Arguments}
    (h : ∀ group ∈ arguments.groups, fault? (parse group) = firstFault group) :
    fault? (parseArguments arguments) = arguments.groups.findSome? firstFault := by
  cases arguments with
  | sum lower upper body =>
    simp only [Arguments.groups, List.mem_cons, List.not_mem_nil, or_false, forall_eq_or_imp,
      forall_eq] at h
    obtain ⟨hLower, hUpper, hBody⟩ := h
    simp only [Arguments.groups, findSome?_cons_or, List.findSome?_nil, ← hLower, ← hUpper, ← hBody]
    exact fault?_bind fun l => fault?_bind fun u => fault?_bind fun b => rfl
  | frac numerator denominator =>
    simp only [Arguments.groups, List.mem_cons, List.not_mem_nil, or_false, forall_eq_or_imp,
      forall_eq] at h
    obtain ⟨hNumerator, hDenominator⟩ := h
    simp only [Arguments.groups, findSome?_cons_or, List.findSome?_nil, ← hNumerator,
      ← hDenominator]
    exact fault?_bind fun n => fault?_bind fun d => rfl

theorem fault?_proceed (node : Expr) {after : List Token}
    (h : ∀ tokens, tokens.length ≤ after.length → fault? (parse tokens) = firstFault tokens) :
    fault? (proceed node after) = firstFault after := by
  cases after with
  | nil => rfl
  | cons token tail =>
    rw [proceed]
    by_cases hPlus : token.kind = .plus
    · rw [if_pos hPlus, fault?_bind_pure, h tail (by simp),
        firstFault_of_not_call (by simp [pivot?_of_plus hPlus])]
    · rw [if_neg hPlus]
      by_cases hEquals : token.kind = .equals
      · rw [if_pos hEquals, fault?_bind_pure, h tail (by simp),
          firstFault_of_not_call (by simp [pivot?_of_equals hEquals])]
      · rw [if_neg hEquals, fault?_bind_pure, h (token :: tail) (Nat.le_refl _)]

/-- Behind a well-formed call come the faults of its arguments, then those of what follows it. -/
theorem firstFault_call {callee : Callee} {keyword : Token} {rest after : List Token}
    {arguments : Arguments} (hKeyword : pivot? keyword = some (.call callee))
    (hRead : readCall callee keyword rest = .ok (arguments, after)) :
    firstFault (keyword :: rest) =
      (arguments.groups.findSome? firstFault).or (firstFault after) := by
  have hCall : callFault? (keyword :: rest) = none := by
    rw [callFault?_of_call hKeyword, hRead]
    rfl
  obtain ⟨_, tokens, hTokens, rfl⟩ := readCall_eq_ok_iff.mp hRead
  obtain ⟨hOpen, hInside, hClose⟩ := hTokens
  rename_i paren close inside
  have hParen : ∀ callee, pivot? paren ≠ some (.call callee) := by
    intro callee hCall
    rw [(pivot?_eq_call_iff.mp hCall).1] at hOpen
    cases hOpen
  rw [firstFault, hCall, Option.none_or, List.cons_append, firstFault_of_not_call hParen,
    List.append_assoc]
  exact firstFault_argumentList hInside hClose

theorem fault?_parse (tokens : List Token) : fault? (parse tokens) = firstFault tokens := by
  generalize hLength : tokens.length = n
  induction n using Nat.strongRecOn generalizing tokens with
  | ind n ih =>
    rcases hSplit : splitPivot tokens with ⟨before, decision⟩
    have hBefore : NoPivot before := by
      have := noPivot_splitPivot tokens
      rwa [hSplit] at this
    cases decision with
    | none =>
      obtain rfl := splitPivot_none hSplit
      have hNone := firstFault_append_noPivot hBefore []
      rw [List.append_nil] at hNone
      rw [parse_plain hSplit, hNone]
      rfl
    | some decision =>
      have hRest := hLength ▸ splitPivot_length hSplit
      have hPivot := pivot?_splitPivot hSplit
      obtain rfl := splitPivot_append hSplit
      obtain ⟨pivot, token, rest⟩ := decision
      dsimp only at hRest hPivot
      rw [firstFault_append_noPivot hBefore]
      cases pivot with
      | plus =>
        rw [parse_plus hSplit, fault?_bind_pure, ih rest.length hRest rest rfl,
          firstFault_of_not_call (by simp [hPivot])]
      | equals =>
        rw [parse_equals hSplit, fault?_bind_pure, ih rest.length hRest rest rfl,
          firstFault_of_not_call (by simp [hPivot])]
      | call callee =>
        cases hRead : readCall callee token rest with
        | error e =>
          rw [parse_call_error hSplit hRead, firstFault, callFault?_of_call hPivot, hRead]
          rfl
        | ok result =>
          obtain ⟨arguments, after⟩ := result
          obtain ⟨hAfter, hGroups⟩ := readCall_length hRead
          have hShorter : ∀ group ∈ arguments.groups, fault? (parse group) = firstFault group := by
            intro group hGroup
            have := hGroups group hGroup
            exact ih group.length (by omega) group rfl
          rw [parse_call hSplit hRead, firstFault_call hPivot hRead,
            ← fault?_parseArguments hShorter]
          exact fault?_bind fun call => fault?_proceed _ fun later hLater =>
            ih later.length (by omega) later rfl

/-! ## Keywords by their index -/

theorem firstFault_eq_none_iff {tokens : List Token} :
    firstFault tokens = none ↔ ∀ index, callFault? (tokens.drop index) = none := by
  induction tokens with
  | nil => simp [firstFault, callFault?]
  | cons token rest ih =>
    rw [firstFault, Option.or_eq_none_iff, ih]
    constructor
    · rintro ⟨hFirst, hRest⟩ index
      cases index with
      | zero => exact hFirst
      | succ index => exact hRest index
    · intro h
      exact ⟨h 0, fun index => h (index + 1)⟩

theorem firstFault_eq_some_iff {tokens : List Token} {e : SyntaxError} :
    firstFault tokens = some e ↔ ∃ index, callFault? (tokens.drop index) = some e ∧
      ∀ earlier < index, callFault? (tokens.drop earlier) = none := by
  induction tokens with
  | nil => simp [firstFault, callFault?]
  | cons token rest ih =>
    rw [firstFault, Option.or_eq_some_iff, ih]
    constructor
    · rintro (hFirst | ⟨hFirst, index, hIndex, hEarlier⟩)
      · exact ⟨0, hFirst, by simp⟩
      · refine ⟨index + 1, hIndex, ?_⟩
        intro earlier hLess
        cases earlier with
        | zero => exact hFirst
        | succ earlier => exact hEarlier earlier (by omega)
    · rintro ⟨index, hIndex, hEarlier⟩
      cases index with
      | zero => exact Or.inl hIndex
      | succ index =>
        exact Or.inr ⟨hEarlier 0 (by omega), index, hIndex, fun earlier hLess =>
          hEarlier (earlier + 1) (by omega)⟩

/-- The keyword of a call at an index. -/
structure KeywordAt (tokens : List Token) (index : Nat) (callee : Callee) (keyword : Token) :
    Prop where
  token : tokens[index]? = some keyword
  kind : keyword.kind = .identifier
  text : keyword.text = callee.keyword

section Index

variable {tokens : List Token} {index : Nat}

theorem KeywordAt.callFault? {callee : Callee} {keyword : Token}
    (h : KeywordAt tokens index callee keyword) :
    callFault? (tokens.drop index) =
      fault? (readCall callee keyword (tokens.drop (index + 1))) := by
  obtain ⟨hLess, rfl⟩ := List.getElem?_eq_some_iff.mp h.token
  rw [List.drop_eq_getElem_cons hLess, callFault?_of_call (pivot?_eq_call_iff.mpr ⟨h.kind, h.text⟩)]

theorem callFault?_of_not_keywordAt
    (h : ∀ callee keyword, ¬ KeywordAt tokens index callee keyword) :
    callFault? (tokens.drop index) = none := by
  cases hToken : tokens[index]? with
  | none =>
    rw [List.drop_eq_nil_of_le (List.getElem?_eq_none_iff.mp hToken)]
    rfl
  | some token =>
    obtain ⟨hLess, rfl⟩ := List.getElem?_eq_some_iff.mp hToken
    rw [List.drop_eq_getElem_cons hLess, callFault?_of_not_call]
    intro callee hCall
    obtain ⟨hKind, hText⟩ := pivot?_eq_call_iff.mp hCall
    exact h callee _ ⟨hToken, hKind, hText⟩

theorem callFault?_drop_eq_none_iff :
    callFault? (tokens.drop index) = none ↔
      ∀ callee keyword, KeywordAt tokens index callee keyword →
        WellFormed callee (tokens.drop (index + 1)) := by
  constructor
  · intro h callee keyword hKeyword
    rw [hKeyword.callFault?, fault?_eq_none_iff] at h
    exact exists_readCall_eq_ok_iff.mp h
  · intro h
    by_cases hKeyword : ∃ callee keyword, KeywordAt tokens index callee keyword
    · obtain ⟨callee, keyword, hKeyword⟩ := hKeyword
      rw [hKeyword.callFault?, fault?_eq_none_iff]
      exact exists_readCall_eq_ok_iff.mpr (h callee keyword hKeyword)
    · exact callFault?_of_not_keywordAt fun callee keyword hAt => hKeyword ⟨callee, keyword, hAt⟩

theorem callFault?_drop_eq_some_iff {e : SyntaxError} :
    callFault? (tokens.drop index) = some e ↔
      ∃ callee keyword, KeywordAt tokens index callee keyword ∧
        CallFault callee keyword (tokens.drop (index + 1)) e := by
  constructor
  · intro h
    by_cases hKeyword : ∃ callee keyword, KeywordAt tokens index callee keyword
    · obtain ⟨callee, keyword, hKeyword⟩ := hKeyword
      rw [hKeyword.callFault?, fault?_eq_some_iff] at h
      exact ⟨callee, keyword, hKeyword, readCall_eq_error_iff.mp h⟩
    · rw [callFault?_of_not_keywordAt fun callee keyword hAt =>
        hKeyword ⟨callee, keyword, hAt⟩] at h
      cases h
  · rintro ⟨callee, keyword, hKeyword, hFault⟩
    rw [hKeyword.callFault?, fault?_eq_some_iff]
    exact readCall_eq_error_iff.mpr hFault

end Index

/-- All keywords in front of an index are well formed. -/
def WellFormedBelow (tokens : List Token) (bound : Nat) : Prop :=
  ∀ index < bound, ∀ callee keyword, KeywordAt tokens index callee keyword →
    WellFormed callee (tokens.drop (index + 1))

theorem CallFault.not_wellFormed {callee : Callee} {keyword : Token} {rest : List Token}
    {e : SyntaxError} (h : CallFault callee keyword rest e) : ¬ WellFormed callee rest := by
  intro hWellFormed
  obtain ⟨result, hOk⟩ := (@exists_readCall_eq_ok_iff callee keyword rest).mpr hWellFormed
  rw [readCall_eq_error_iff.mpr h] at hOk
  cases hOk

/-- The parser reads exactly the tokens in which every keyword is well formed. Otherwise it reports
what is wrong with the leftmost keyword that is not. -/
theorem parse_reports_leftmost_fault (tokens : List Token) :
    ((∃ e, parse tokens = .ok e) ↔ WellFormedBelow tokens tokens.length) ∧
      (∀ error, parse tokens = .error error ↔
        ∃ index callee keyword, KeywordAt tokens index callee keyword ∧
          ¬ WellFormed callee (tokens.drop (index + 1)) ∧ WellFormedBelow tokens index ∧
          CallFault callee keyword (tokens.drop (index + 1)) error) ∧
      ∀ error, parse tokens = .error error → error.fault.kind = .malformedCall := by
  have hError : ∀ error, parse tokens = .error error ↔
      ∃ index callee keyword, KeywordAt tokens index callee keyword ∧
        ¬ WellFormed callee (tokens.drop (index + 1)) ∧ WellFormedBelow tokens index ∧
        CallFault callee keyword (tokens.drop (index + 1)) error := by
    intro error
    rw [← fault?_eq_some_iff, fault?_parse, firstFault_eq_some_iff]
    simp only [callFault?_drop_eq_some_iff, callFault?_drop_eq_none_iff]
    constructor
    · rintro ⟨index, ⟨callee, keyword, hKeyword, hFault⟩, hEarlier⟩
      exact ⟨index, callee, keyword, hKeyword, hFault.not_wellFormed, hEarlier, hFault⟩
    · rintro ⟨index, callee, keyword, hKeyword, _, hEarlier, hFault⟩
      exact ⟨index, ⟨callee, keyword, hKeyword, hFault⟩, hEarlier⟩
  refine ⟨?_, hError, ?_⟩
  · rw [← fault?_eq_none_iff, fault?_parse, firstFault_eq_none_iff]
    simp only [callFault?_drop_eq_none_iff]
    constructor
    · intro h index _
      exact h index
    · intro h index callee keyword hKeyword
      have hLess := (List.getElem?_eq_some_iff.mp hKeyword.token).1
      exact h index hLess callee keyword hKeyword
  · intro error h
    obtain ⟨index, callee, keyword, _, _, _, hFault⟩ := (hError error).mp h
    exact hFault.kind

end ProseMath.Expr
