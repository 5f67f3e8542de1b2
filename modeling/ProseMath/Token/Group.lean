import ProseMath.Token.Basic

/-!
# Groups of tokens

Searching token lists, and cutting them with regard to parentheses. An index counts tokens of the
list it is asked of.

* `closing?_lt`: a closing parenthesis is found inside the list.
* `length_of_mem_splitTopLevel`: no group is longer than the list that was cut.
-/

namespace ProseMath.Token

/-- The index of the first token of a kind at or after `start`. -/
def find? (tokens : List Token) (kind : Kind) (start : Nat) : Option Nat :=
  ((tokens.drop start).findIdx? fun token => token.kind = kind).map (· + start)

/-- The index of the first closing parenthesis that no opening one of the list precedes as its
partner, where `depth` further parentheses are to be closed first. -/
def closing? (depth : Nat) : List Token → Option Nat
  | [] => none
  | token :: rest =>
    if token.kind = .openParen then (closing? (depth + 1) rest).map (· + 1)
    else if token.kind = .closeParen then
      match depth with
      | 0 => some 0
      | depth + 1 => (closing? depth rest).map (· + 1)
    else (closing? depth rest).map (· + 1)

/-- The index of the parenthesis that closes one which stands right before `start`. -/
def closingFrom? (tokens : List Token) (start : Nat) : Option Nat :=
  (closing? 0 (tokens.drop start)).map (· + start)

/-- The index of the parenthesis that closes the one at an index. -/
def matchingParen? (tokens : List Token) (index : Nat) : Option Nat :=
  closingFrom? tokens (index + 1)

/-- A token put in front of the first group. -/
def consGroup (token : Token) : List (List Token) → List (List Token)
  | [] => [[token]]
  | group :: groups => (token :: group) :: groups

/-- The groups between the separators at depth zero, where the list starts at `depth`. A
parenthesis only changes the depth and never separates; the depth may become negative. -/
def splitAtDepth (separator : Kind) (depth : Int) : List Token → List (List Token)
  | [] => [[]]
  | token :: rest =>
    if token.kind = .openParen then consGroup token (splitAtDepth separator (depth + 1) rest)
    else if token.kind = .closeParen then consGroup token (splitAtDepth separator (depth - 1) rest)
    else if token.kind = separator ∧ depth = 0 then [] :: splitAtDepth separator depth rest
    else consGroup token (splitAtDepth separator depth rest)

/-- The groups between the separators outside parentheses; there is always at least one. -/
def splitTopLevel (separator : Kind) (tokens : List Token) : List (List Token) :=
  splitAtDepth separator 0 tokens

/-- The tokens before and after the first equals sign at depth zero, where the list starts at
`depth`. -/
def splitEquals? (depth : Int) : List Token → Option (List Token × List Token)
  | [] => none
  | token :: rest =>
    if token.kind = .equals ∧ depth = 0 then some ([], rest)
    else
      let after := if token.kind = .openParen then depth + 1
        else if token.kind = .closeParen then depth - 1 else depth
      (splitEquals? after rest).map fun sides => (token :: sides.1, sides.2)

theorem closing?_lt {depth : Nat} {tokens : List Token} {index : Nat}
    (h : closing? depth tokens = some index) : index < tokens.length := by
  induction tokens generalizing depth index with
  | nil => simp [closing?] at h
  | cons token rest ih =>
    have step : ∀ d, (closing? d rest).map (· + 1) = some index →
        index < (token :: rest).length := by
      intro d hd
      obtain ⟨i, hi, rfl⟩ := Option.map_eq_some_iff.mp hd
      exact Nat.succ_lt_succ (ih hi)
    unfold closing? at h
    split at h
    · exact step _ h
    · split at h
      · split at h
        · cases h; simp
        · exact step _ h
      · exact step _ h

theorem length_of_mem_consGroup {token : Token} {groups : List (List Token)} {n : Nat}
    (h : ∀ group ∈ groups, group.length ≤ n) :
    ∀ group ∈ consGroup token groups, group.length ≤ n + 1 := by
  cases groups with
  | nil => simp [consGroup]
  | cons first rest =>
    intro group hGroup
    rcases List.mem_cons.mp hGroup with rfl | hRest
    · exact Nat.succ_le_succ (h first (List.mem_cons_self ..))
    · exact Nat.le_succ_of_le (h group (List.mem_cons_of_mem _ hRest))

theorem length_of_mem_splitAtDepth {separator : Kind} {depth : Int} {tokens group : List Token}
    (h : group ∈ splitAtDepth separator depth tokens) : group.length ≤ tokens.length := by
  induction tokens generalizing depth group with
  | nil => simp_all [splitAtDepth]
  | cons token rest ih =>
    rw [splitAtDepth] at h
    split at h
    · exact length_of_mem_consGroup (fun g hg => ih hg) group h
    · split at h
      · exact length_of_mem_consGroup (fun g hg => ih hg) group h
      · split at h
        · rcases List.mem_cons.mp h with rfl | hRest
          · simp
          · exact Nat.le_succ_of_le (ih hRest)
        · exact length_of_mem_consGroup (fun g hg => ih hg) group h

theorem length_of_mem_splitTopLevel {separator : Kind} {tokens group : List Token}
    (h : group ∈ splitTopLevel separator tokens) : group.length ≤ tokens.length :=
  length_of_mem_splitAtDepth h

end ProseMath.Token
