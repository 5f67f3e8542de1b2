import Mathlib.Tactic.Common
import ProseMath.Proofs.Document.Segmentation
import ProseMath.Proofs.Document.Verdict

/-!
# The states of a reading

A reading goes from state to state. In each of them it stands in some line of its tokens, and it has
judged the part of the line that is behind it as prose: the tokens of that part are the last ones
being collected, and its parentheses lead from the carried depth to the current one.

* `Reached.run_eq`: all states of a reading come to the same result.
* `Reached.stands`: where a reading stands in its tokens.
* `Reached.exists_step_error`: a reading that fails does so at a token.
-/

namespace ProseMath

open Line

/-! ## Parentheses and lines -/

theorem Token.exists_opened_of_nesting {tokens : List Token} (h : 0 < nesting tokens) :
    ∃ token ∈ tokens, token.kind = .openParen := by
  induction tokens with
  | nil => cases h
  | cons token rest ih =>
    by_cases hOpen : token.kind = .openParen
    · exact ⟨token, List.mem_cons_self, hOpen⟩
    · have hTurn : turn token ≤ 0 := by
        rw [turn, if_neg hOpen]
        split <;> omega
      rw [nesting_cons] at h
      obtain ⟨opening, hMem, hKind⟩ := ih (by omega)
      exact ⟨opening, List.mem_cons_of_mem _ hMem, hKind⟩

theorem exists_line_end (tokens : List Token) :
    ∃ line tail, tokens = line ++ tail ∧ (∀ token ∈ line, token.kind ≠ .newline) ∧
      ∀ token ∈ tail.head?, token.kind = .newline := by
  induction tokens with
  | nil => exact ⟨[], [], rfl, by simp, by simp⟩
  | cons token rest ih =>
    by_cases hNewline : token.kind = .newline
    · exact ⟨[], token :: rest, rfl, by simp, by simpa using hNewline⟩
    · obtain ⟨line, tail, rfl, hLine, hTail⟩ := ih
      exact ⟨token :: line, tail, rfl, List.forall_mem_cons.mpr ⟨hNewline, hLine⟩, hTail⟩

namespace Reading

/-! ## States -/

/-- The states that the reading of `tokens` goes through. -/
inductive Reached (tokens : List Token) : Reading → Prop
  | start : Reached tokens (.start tokens)
  | step {s after : Reading} {token : Token} {rest : List Token} (hReached : Reached tokens s)
    (hRest : s.rest = token :: rest) (hStep : s.step token rest = .ok after) : Reached tokens after

/-- A reading stands in a line of `tokens`, with `before` in front of the line. -/
structure Stands (tokens before : List Token) (s : Reading) : Prop where
  tokens_eq : tokens = before ++ (s.line ++ s.rest)
  /-- A line begins behind a newline. Behind an equation that ends the tokens there is no line. -/
  newline : s.rest ≠ [] → ∀ last ∈ before.getLast?, last.kind = .newline
  line : ∀ token ∈ s.line, token.kind ≠ .newline
  floating : ∃ front, s.floating = front ++ s.line
  verdict : verdict s.carried s.line = .prose s.depth
  /-- Parentheses that are open at the beginning of a line were opened before it. -/
  opened : 0 < s.carried → ∃ token ∈ before, token.kind = .openParen

/-! ## Steps -/

/-- What a token does to a reading that goes on. -/
theorem step_eq_ok {s after : Reading} {token : Token} {rest : List Token}
    (h : s.step token rest = .ok after) :
    (token.kind = .newline ∧ after = s.lineEnd token rest) ∨
      s.equationLine token rest = .ok after ∨
      (token.kind ≠ .newline ∧ ∃ depth, Line.verdict s.depth [token] = .prose depth ∧
        after = { s.collect token rest with depth := depth }) := by
  by_cases hNewline : token.kind = .newline
  · rw [step, hNewline] at h
    cases h
    exact Or.inl ⟨hNewline, rfl⟩
  rcases s.step_cases hNewline rest [] with ⟨_, hStep⟩ | ⟨_, hStep⟩ | ⟨depth, hVerdict, hStep⟩
  · rw [hStep] at h
    cases h
  · exact Or.inr (Or.inl (hStep.symm.trans h))
  · rw [hStep] at h
    cases h
    exact Or.inr (Or.inr ⟨hNewline, depth, hVerdict, rfl⟩)

/-- A token at which a reading fails closes a parenthesis that none opens, or it is the equals sign
of a line that is no equation. -/
theorem step_eq_error {s : Reading} {token : Token} {rest : List Token} {e : SyntaxError}
    (h : s.step token rest = .error e) :
    e = ⟨.unexpectedClose, some token.offset⟩ ∨
      ((token.kind = .equals ∧ s.depth = 0) ∧ s.equationLine token rest = .error e) := by
  by_cases hNewline : token.kind = .newline
  · rw [step, hNewline] at h
    cases h
  rcases s.step_cases hNewline rest [] with ⟨_, hStep⟩ | ⟨hVerdict, hStep⟩ | ⟨depth, _, hStep⟩
  · rw [hStep] at h
    cases h
    exact Or.inl rfl
  · rw [hStep] at h
    refine Or.inr ⟨?_, h⟩
    rcases verdict_cons s.depth token with ⟨_, hToken⟩ | ⟨hSign, _⟩ | ⟨after, _, hToken⟩
    · rw [hToken] at hVerdict
      cases hVerdict
    · exact hSign
    · rw [hToken] at hVerdict
      cases hVerdict
  · rw [hStep] at h
    cases h

namespace Stands

variable {tokens before rest : List Token} {s after : Reading} {token : Token}

theorem collect (h : Stands tokens before s) (hRest : s.rest = token :: rest)
    (hNewline : token.kind ≠ .newline) {depth : Nat}
    (hVerdict : Line.verdict s.depth [token] = .prose depth) :
    Stands tokens before { s.collect token rest with depth := depth } := by
  obtain ⟨front, hFloating⟩ := h.floating
  refine ⟨?_, fun _ => h.newline (by simp [hRest]), ?_, ⟨front, ?_⟩, ?_, h.opened⟩
  · simp [h.tokens_eq, hRest, Reading.collect]
  · simpa [Reading.collect, or_imp, forall_and] using ⟨h.line, hNewline⟩
  · simp [Reading.collect, hFloating]
  · exact (verdict_append h.verdict [token]).trans hVerdict

/-- Behind a line of prose its parentheses are carried to the next line. -/
theorem nextLine (h : Stands tokens before s) (ending : List Token)
    (hRest : s.rest = ending ++ after.rest)
    (hEnding : ∃ newline, newline.kind = .newline ∧ ending.getLast? = some newline)
    (hLine : after.line = []) (hDepth : after.depth = s.depth)
    (hCarried : after.carried = s.depth) : Stands tokens (before ++ s.line ++ ending) after := by
  obtain ⟨newline, hNewline, hLast⟩ := hEnding
  refine ⟨?_, fun _ => ?_, ?_, ⟨after.floating, ?_⟩, ?_, fun hOpen => ?_⟩
  · simp [h.tokens_eq, hRest, hLine]
  · rw [List.getLast?_append, hLast]
    rintro last ⟨⟩
    exact hNewline
  · simp [hLine]
  · rw [hLine, List.append_nil]
  · rw [hLine, hDepth, hCarried]
    rfl
  · -- what is open behind the line was open in front of it, or the line has opened it
    rw [hCarried] at hOpen
    have hNesting := nesting_of_verdict h.verdict
    by_cases hBefore : 0 < s.carried
    · obtain ⟨token, hMem, hKind⟩ := h.opened hBefore
      exact ⟨token, by simp [hMem], hKind⟩
    · have hLevel : 0 < Token.nesting s.line := by omega
      obtain ⟨token, hMem, hKind⟩ := Token.exists_opened_of_nesting hLevel
      exact ⟨token, by simp [hMem], hKind⟩

theorem lineEnd (h : Stands tokens before s) (hRest : s.rest = token :: rest)
    (hNewline : token.kind = .newline) : ∃ before, Stands tokens before (s.lineEnd token rest) := by
  cases rest with
  | nil =>
    rw [lineEnd_not_blank (by simp)]
    exact ⟨_, h.nextLine [token] hRest ⟨token, hNewline, rfl⟩ rfl rfl rfl⟩
  | cons next tail =>
    by_cases hNext : next.kind = .newline
    · rw [lineEnd_blank hNext]
      exact ⟨_, h.nextLine [token, next] hRest ⟨next, hNext, rfl⟩ rfl rfl rfl⟩
    · rw [lineEnd_not_blank (by simpa using hNext)]
      exact ⟨_, h.nextLine [token] hRest ⟨token, hNewline, rfl⟩ rfl rfl rfl⟩

/-- An equation leaves the carried depth as it is. -/
theorem equationLine (h : Stands tokens before s) (hRest : s.rest = token :: rest)
    (hEquation : s.equationLine token rest = .ok after) : ∃ before, Stands tokens before after := by
  obtain ⟨line, tail, rfl, hLine, hTail⟩ := exists_line_end rest
  obtain ⟨front, hFloating⟩ := h.floating
  rw [equationLine_eq hLine hTail hFloating] at hEquation
  obtain ⟨e, _, hAfter⟩ := Expr.exists_of_bind_eq_ok hEquation
  cases hAfter
  refine ⟨before ++ s.line ++ token :: line ++ tail.take 1, ?_, ?_, by simp, ⟨[], rfl⟩, rfl, ?_⟩
  · rw [h.tokens_eq, hRest]
    cases tail <;> simp
  · intro hMore last hLast
    cases tail with
    | nil => exact absurd rfl hMore
    | cons newline tail =>
      rw [List.getLast?_append] at hLast
      cases hLast
      exact hTail newline rfl
  · intro hOpen
    obtain ⟨token, hMem, hKind⟩ := h.opened hOpen
    exact ⟨token, by simp [hMem], hKind⟩

theorem step (h : Stands tokens before s) (hRest : s.rest = token :: rest)
    (hStep : s.step token rest = .ok after) : ∃ before, Stands tokens before after := by
  rcases step_eq_ok hStep with ⟨hNewline, rfl⟩ | hEquation | ⟨hNewline, depth, hVerdict, rfl⟩
  · exact h.lineEnd hRest hNewline
  · exact h.equationLine hRest hEquation
  · exact ⟨before, h.collect hRest hNewline hVerdict⟩

end Stands

/-! ## Runs -/

namespace Reached

variable {tokens : List Token} {s : Reading}

theorem stands (h : Reached tokens s) : ∃ before, Stands tokens before s := by
  induction h with
  | start =>
    refine ⟨[], rfl, by simp, ?_, ⟨[], rfl⟩, rfl, ?_⟩
    · simp [Reading.start]
    · simp [Reading.start]
  | step _ hRest hStep ih =>
    obtain ⟨before, hStands⟩ := ih
    exact hStands.step hRest hStep

theorem run_eq (h : Reached tokens s) : s.run = Document.ofTokens tokens := by
  induction h with
  | start => rfl
  | step _ hRest hStep ih =>
    rw [run_cons hRest, hStep] at ih
    exact ih

theorem exists_step_error (h : Reached tokens s) {e : SyntaxError} (hRun : s.run = .error e) :
    ∃ s token rest, Reached tokens s ∧ s.rest = token :: rest ∧ s.step token rest = .error e := by
  -- every step leaves fewer tokens to be read
  generalize hLength : s.rest.length = n
  induction n using Nat.strongRecOn generalizing s with
  | ind n ih =>
    cases hRest : s.rest with
    | nil =>
      rw [run_nil hRest] at hRun
      cases hRun
    | cons token rest =>
      rw [run_cons hRest] at hRun
      cases hStep : s.step token rest with
      | error other =>
        rw [hStep] at hRun
        cases hRun
        exact ⟨s, token, rest, h, hRest, hStep⟩
      | ok after =>
        rw [hStep] at hRun
        have hShorter := step_rest hStep
        rw [hRest, List.length_cons] at hLength
        exact ih after.rest.length (by omega) (h.step hRest hStep) hRun rfl

end Reached

end Reading

end ProseMath
