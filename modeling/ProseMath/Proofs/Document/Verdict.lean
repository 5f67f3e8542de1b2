import Mathlib.Tactic.Common
import ProseMath.Proofs.Document.Line
import ProseMath.Proofs.Token.Nesting

/-!
# Verdicts on lines

A line is judged from left to right. Each token settles what the line is or only changes the number
of open parentheses.

* `verdict_append`, `exists_verdict_of_append`: a line of prose is judged further where its tokens
  end.
* `nesting_of_verdict`, `eachAt_of_verdict`: parentheses and equals signs of a line of prose.
-/

namespace ProseMath

open Line

section Cons

variable {token : Token} (depth : Nat) (rest : List Token)

theorem verdict_opened (h : token.kind = .openParen) :
    verdict depth (token :: rest) = verdict (depth + 1) rest := by
  rw [verdict, h]

theorem verdict_closed (h : token.kind = .closeParen) :
    verdict depth (token :: rest) =
      if depth = 0 then .closes token else verdict (depth - 1) rest := by
  rw [verdict, h]

theorem verdict_equals (h : token.kind = .equals) :
    verdict depth (token :: rest) = if depth = 0 then .equation else verdict depth rest := by
  rw [verdict, h]

theorem verdict_other (hOpen : token.kind ≠ .openParen) (hClose : token.kind ≠ .closeParen)
    (hEquals : token.kind ≠ .equals) : verdict depth (token :: rest) = verdict depth rest := by
  rw [verdict]
  split
  · contradiction
  · contradiction
  · contradiction
  · rfl

end Cons

/-- A token decides what its line is, or it only counts for the parentheses. -/
theorem verdict_cons (depth : Nat) (token : Token) :
    (token.kind = .closeParen ∧ ∀ rest, verdict depth (token :: rest) = .closes token) ∨
      ((token.kind = .equals ∧ depth = 0) ∧ ∀ rest, verdict depth (token :: rest) = .equation) ∨
      ∃ after : Nat, (after : Int) = depth + Token.turn token ∧
        ∀ rest, verdict depth (token :: rest) = verdict after rest := by
  by_cases hOpen : token.kind = .openParen
  · rw [Token.turn_opened hOpen]
    exact Or.inr (Or.inr ⟨depth + 1, by omega, fun rest => verdict_opened depth rest hOpen⟩)
  by_cases hClose : token.kind = .closeParen
  · rw [Token.turn_closed hClose]
    by_cases hZero : depth = 0
    · exact Or.inl ⟨hClose, fun rest => (verdict_closed depth rest hClose).trans (if_pos hZero)⟩
    · refine Or.inr (Or.inr ⟨depth - 1, by omega, fun rest => ?_⟩)
      rw [verdict_closed depth rest hClose, if_neg hZero]
  rw [Token.turn_other hOpen hClose]
  by_cases hEquals : token.kind = .equals
  · by_cases hZero : depth = 0
    · refine Or.inr (Or.inl ⟨⟨hEquals, hZero⟩, fun rest => ?_⟩)
      rw [verdict_equals depth rest hEquals, if_pos hZero]
    · refine Or.inr (Or.inr ⟨depth, by omega, fun rest => ?_⟩)
      rw [verdict_equals depth rest hEquals, if_neg hZero]
  · exact Or.inr (Or.inr ⟨depth, by omega,
      fun rest => verdict_other depth rest hOpen hClose hEquals⟩)

section Lines

variable {depth : Nat} {tokens : List Token}

theorem closes_of_verdict {token : Token} (h : verdict depth tokens = .closes token) :
    token ∈ tokens ∧ token.kind = .closeParen := by
  induction tokens generalizing depth with
  | nil => cases h
  | cons first rest ih =>
    rcases verdict_cons depth first with ⟨hClose, hFirst⟩ | ⟨_, hFirst⟩ | ⟨after, _, hFirst⟩
    · rw [hFirst] at h
      cases h
      exact ⟨List.mem_cons_self, hClose⟩
    · rw [hFirst] at h
      cases h
    · rw [hFirst] at h
      exact ⟨List.mem_cons_of_mem _ (ih h).1, (ih h).2⟩

theorem exists_equals_of_verdict (h : verdict depth tokens = .equation) :
    ∃ sign ∈ tokens, sign.kind = .equals := by
  induction tokens generalizing depth with
  | nil => cases h
  | cons first rest ih =>
    rcases verdict_cons depth first with ⟨_, hFirst⟩ | ⟨hSign, _⟩ | ⟨after, _, hFirst⟩
    · rw [hFirst] at h
      cases h
    · exact ⟨first, List.mem_cons_self, hSign.1⟩
    · rw [hFirst] at h
      obtain ⟨sign, hMem, hSign⟩ := ih h
      exact ⟨sign, List.mem_cons_of_mem _ hMem, hSign⟩

end Lines

/-! ## Lines of prose -/

section Prose

variable {depth after : Nat} {tokens : List Token}

/-- The first token of a line of prose only counts for the parentheses. -/
theorem verdict_cons_prose {token : Token} {rest : List Token}
    (h : verdict depth (token :: rest) = .prose after) :
    ∃ next : Nat, (next : Int) = depth + Token.turn token ∧ verdict next rest = .prose after ∧
      ∀ rest, verdict depth (token :: rest) = verdict next rest := by
  rcases verdict_cons depth token with ⟨_, hToken⟩ | ⟨_, hToken⟩ | ⟨next, hNext, hToken⟩
  · rw [hToken] at h
    cases h
  · rw [hToken] at h
    cases h
  · exact ⟨next, hNext, (hToken rest).symm.trans h, hToken⟩

theorem verdict_append (h : verdict depth tokens = .prose after) (more : List Token) :
    verdict depth (tokens ++ more) = verdict after more := by
  induction tokens generalizing depth with
  | nil =>
    cases h
    rfl
  | cons token rest ih =>
    obtain ⟨next, _, hRest, hToken⟩ := verdict_cons_prose h
    rw [List.cons_append, hToken, ih hRest]

theorem exists_verdict_of_append {more : List Token}
    (h : verdict depth (tokens ++ more) = .prose after) :
    ∃ between, verdict depth tokens = .prose between ∧ verdict between more = .prose after := by
  induction tokens generalizing depth with
  | nil => exact ⟨depth, rfl, h⟩
  | cons token rest ih =>
    obtain ⟨next, _, hRest, hToken⟩ := verdict_cons_prose h
    obtain ⟨between, hFront, hMore⟩ := ih hRest
    exact ⟨between, (hToken rest).trans hFront, hMore⟩

theorem verdict_newline {newline : Token} (h : newline.kind = .newline) (depth : Nat)
    (rest : List Token) : verdict depth (newline :: rest) = verdict depth rest :=
  verdict_other depth rest (by simp [h]) (by simp [h]) (by simp [h])

theorem nesting_of_verdict (h : verdict depth tokens = .prose after) :
    (after : Int) = depth + Token.nesting tokens := by
  induction tokens generalizing depth with
  | nil =>
    cases h
    exact (Int.add_zero _).symm
  | cons token rest ih =>
    obtain ⟨next, hNext, hRest, _⟩ := verdict_cons_prose h
    have := ih hRest
    rw [Token.nesting_cons]
    omega

/-- No equals sign of a line of prose stands outside parentheses. -/
theorem eachAt_of_verdict (h : verdict depth tokens = .prose after) :
    Token.EachAt .equals (· ≠ 0) depth tokens := by
  induction tokens generalizing depth with
  | nil => exact Token.eachAt_nil
  | cons token rest ih =>
    obtain ⟨next, hNext, hRest, _⟩ := verdict_cons_prose h
    refine Token.eachAt_cons.mpr ⟨fun hEquals hDepth => ?_, hNext ▸ ih hRest⟩
    rw [verdict_equals _ _ hEquals, if_pos (by omega)] at h
    cases h

end Prose

end ProseMath
