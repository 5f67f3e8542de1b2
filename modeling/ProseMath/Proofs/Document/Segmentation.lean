import Mathlib.Tactic.Common
import ProseMath.Proofs.Document.Line

/-!
# Reading a document is reading its lines

`Reading.run` goes through the tokens once. It collects a line as prose until an equals sign is met
and then takes it back, and it skips newlines in pairs. At the beginning of a line all that matters
of its state are the tokens being collected and the parentheses that are open.

* `Reading.run_closes`, `Reading.run_equation`, `Reading.run_prose`: a run over one line, for each
  verdict on it.
* `Reading.run_eq_readLines`: a run from the beginning of a line.
* `Document.parse_eq_ofLines`: a document is read line by line.
-/

namespace ProseMath

open Line

/-! ## Reading a line -/

section ReadLines

variable {α : Type} {depth : Nat} {line : Line} {lines : List Line} {f : List Passage → α}

theorem map_readLines_closes {token : Token} (h : verdict depth line.tokens = .closes token) :
    (readLines depth (line :: lines)).map f = .error ⟨.unexpectedClose, some token.offset⟩ := by
  rw [readLines, h]
  rfl

theorem map_readLines_equation (h : verdict depth line.tokens = .equation) :
    (readLines depth (line :: lines)).map f = Equation.parse line.tokens >>= fun e =>
      (readLines depth lines).map fun passages => f (⟨line, some e⟩ :: passages) := by
  rw [readLines, h]
  cases Equation.parse line.tokens with
  | error fault => rfl
  | ok e => cases readLines depth lines <;> rfl

theorem map_readLines_prose {after : Nat} (h : verdict depth line.tokens = .prose after) :
    (readLines depth (line :: lines)).map f =
      (readLines after lines).map fun passages => f (⟨line, none⟩ :: passages) := by
  rw [readLines, h]
  cases hRead : readLines after lines <;> simp [hRead] <;> rfl

end ReadLines

namespace Reading

/-! ## Steps -/

theorem flush_eq (s : Reading) :
    s.flush = { s with blocks := s.blocks ++ paragraph s.floating, floating := [] } := by
  unfold flush paragraph
  dsimp only
  split <;> simp

theorem run_nil {s : Reading} (h : s.rest = []) :
    s.run = .ok ⟨s.blocks ++ paragraph s.floating⟩ := by
  rw [run]
  split
  · rw [flush_eq]
  · rename_i hRest
    rw [h] at hRest
    cases hRest

theorem run_cons {s : Reading} {token : Token} {rest : List Token} (h : s.rest = token :: rest) :
    s.run = s.step token rest >>= run := by
  rw [run]
  split
  · rename_i hRest
    rw [h] at hRest
    cases hRest
  · rename_i hRest
    rw [h] at hRest
    cases hRest
    split
    · rename_i hStep
      rw [hStep]
      rfl
    · rename_i hStep
      rw [hStep]
      rfl

/-- A token inside a line decides what the line is, or it is collected. -/
theorem step_cases (s : Reading) {token : Token} (hNewline : token.kind ≠ .newline)
    (rest line : List Token) :
    (verdict s.depth (token :: line) = .closes token ∧
        s.step token rest = .error ⟨.unexpectedClose, some token.offset⟩) ∨
      (verdict s.depth (token :: line) = .equation ∧
        s.step token rest = s.equationLine token rest) ∨
      ∃ depth, verdict s.depth (token :: line) = verdict depth line ∧
        s.step token rest = .ok { s.collect token rest with depth := depth } := by
  rw [verdict, step]
  by_cases hOpen : token.kind = .openParen
  · rw [hOpen]
    exact Or.inr (Or.inr ⟨_, rfl, rfl⟩)
  by_cases hClose : token.kind = .closeParen
  · rw [hClose]
    by_cases hZero : s.depth = 0
    · exact Or.inl ⟨if_pos hZero, if_pos hZero⟩
    · exact Or.inr (Or.inr ⟨_, if_neg hZero, if_neg hZero⟩)
  by_cases hEquals : token.kind = .equals
  · rw [hEquals]
    by_cases hZero : s.depth = 0
    · exact Or.inr (Or.inl ⟨if_pos hZero, if_pos hZero⟩)
    · exact Or.inr (Or.inr ⟨s.depth, if_neg hZero, if_neg hZero⟩)
  · refine Or.inr (Or.inr ⟨s.depth, ?_, ?_⟩)
    · split <;> first | rfl | contradiction
    · split <;> first | rfl | contradiction

/-- The line around an equals sign ends where `tail` begins, and it is taken back. -/
theorem equationLine_eq {s : Reading} {token : Token} {floating line tail : List Token}
    (hLine : ∀ token ∈ line, token.kind ≠ .newline)
    (hTail : ∀ token ∈ tail.head?, token.kind = .newline)
    (hFloating : s.floating = floating ++ s.line) :
    s.equationLine token (line ++ tail) =
      Equation.parse (s.line ++ token :: line) >>= fun e => .ok { s with
        blocks := s.blocks ++ paragraph floating ++ [.equation e], floating := [], line := [],
        depth := s.carried, rest := tail.drop 1 } := by
  have hInside : ∀ token ∈ line, decide (token.kind ≠ .newline) = true := by simpa using hLine
  have hTake : tail.takeWhile (fun token => decide (token.kind ≠ .newline)) = [] := by
    cases tail with
    | nil => rfl
    | cons newline tail => exact List.takeWhile_cons_of_neg (by simp [hTail newline rfl])
  have hDrop : tail.dropWhile (fun token => decide (token.kind ≠ .newline)) = tail := by
    cases tail with
    | nil => rfl
    | cons newline tail => exact List.dropWhile_cons_of_neg (by simp [hTail newline rfl])
  have hBack : s.setBack = { s with floating := floating } := by
    rw [setBack, hFloating, List.length_append, Nat.add_sub_cancel, List.take_left]
  unfold equationLine
  dsimp only
  rw [List.takeWhile_append_of_pos hInside, hTake, List.append_nil,
    List.dropWhile_append_of_pos hInside, hDrop, hBack, flush_eq]
  rfl

/-! ## Runs over a line -/

section Line

variable {s : Reading} {line tail : List Token}

theorem run_closes {token : Token} (hLine : ∀ token ∈ line, token.kind ≠ .newline)
    (hVerdict : verdict s.depth line = .closes token) (hRest : s.rest = line ++ tail) :
    s.run = .error ⟨.unexpectedClose, some token.offset⟩ := by
  induction line generalizing s with
  | nil => cases hVerdict
  | cons first line ih =>
    rw [run_cons (hRest.trans List.cons_append)]
    rcases s.step_cases (hLine first List.mem_cons_self) (line ++ tail) line with
      ⟨hFirst, hStep⟩ | ⟨hFirst, _⟩ | ⟨depth, hFirst, hStep⟩
    · rw [hFirst] at hVerdict
      cases hVerdict
      rw [hStep]
      rfl
    · rw [hFirst] at hVerdict
      cases hVerdict
    · rw [hFirst] at hVerdict
      rw [hStep]
      exact ih (fun token hToken => hLine token (List.mem_cons_of_mem _ hToken)) hVerdict rfl

theorem run_prose {depth : Nat} (hLine : ∀ token ∈ line, token.kind ≠ .newline)
    (hVerdict : verdict s.depth line = .prose depth) (hRest : s.rest = line ++ tail) :
    s.run = run { s with
      floating := s.floating ++ line, line := s.line ++ line, depth := depth, rest := tail } := by
  induction line generalizing s with
  | nil =>
    cases hVerdict
    rw [List.nil_append] at hRest
    rw [List.append_nil, List.append_nil, ← hRest]
  | cons first line ih =>
    rw [run_cons (hRest.trans List.cons_append)]
    rcases s.step_cases (hLine first List.mem_cons_self) (line ++ tail) line with
      ⟨hFirst, _⟩ | ⟨hFirst, _⟩ | ⟨after, hFirst, hStep⟩
    · rw [hFirst] at hVerdict
      cases hVerdict
    · rw [hFirst] at hVerdict
      cases hVerdict
    · rw [hFirst] at hVerdict
      rw [hStep]
      refine (ih (fun token hToken => hLine token (List.mem_cons_of_mem _ hToken)) hVerdict
        rfl).trans ?_
      simp [collect]

/-- An equation takes its line back from the tokens being collected, and the parentheses are those
of the beginning of the line. -/
theorem run_equation {floating : List Token} (hLine : ∀ token ∈ line, token.kind ≠ .newline)
    (hTail : ∀ token ∈ tail.head?, token.kind = .newline)
    (hVerdict : verdict s.depth line = .equation) (hRest : s.rest = line ++ tail)
    (hFloating : s.floating = floating ++ s.line) :
    s.run = Equation.parse (s.line ++ line) >>= fun e => run { s with
      blocks := s.blocks ++ paragraph floating ++ [.equation e], floating := [], line := [],
      depth := s.carried, rest := tail.drop 1 } := by
  induction line generalizing s with
  | nil => cases hVerdict
  | cons first line ih =>
    rw [run_cons (hRest.trans List.cons_append)]
    have hBehind : ∀ token ∈ line, token.kind ≠ .newline := fun token hToken =>
      hLine token (List.mem_cons_of_mem _ hToken)
    rcases s.step_cases (hLine first List.mem_cons_self) (line ++ tail) line with
      ⟨hFirst, _⟩ | ⟨_, hStep⟩ | ⟨depth, hFirst, hStep⟩
    · rw [hFirst] at hVerdict
      cases hVerdict
    · rw [hStep, equationLine_eq hBehind hTail hFloating, bind_assoc]
      rfl
    · rw [hFirst] at hVerdict
      rw [hStep]
      refine (ih hBehind hVerdict rfl ?_).trans ?_
      · simp [collect, hFloating]
      · simp [collect]

end Line

/-! ## Ends of lines -/

section LineEnd

variable {s : Reading} {newline : Token}

theorem run_newline {rest : List Token} (hNewline : newline.kind = .newline)
    (hRest : s.rest = newline :: rest) : s.run = (s.lineEnd newline rest).run := by
  rw [run_cons hRest, step, hNewline]
  rfl

theorem lineEnd_blank {next : Token} {tail : List Token} (hNext : next.kind = .newline) :
    s.lineEnd newline (next :: tail) = { s with
      blocks := s.blocks ++ paragraph s.floating, floating := [], line := [], carried := s.depth,
      rest := tail } := by
  rw [lineEnd, if_pos hNext, flush_eq]

theorem lineEnd_not_blank {rest : List Token} (hRest : ∀ next ∈ rest.head?, next.kind ≠ .newline) :
    s.lineEnd newline rest = { s with
      floating := s.floating ++ [newline], line := [], carried := s.depth, rest := rest } := by
  cases rest with
  | nil => rfl
  | cons next tail => rw [lineEnd, if_neg (hRest next rfl)]

end LineEnd

/-! ## Runs over many lines -/

/-- A run from the beginning of the last line. -/
theorem run_last {s : Reading} {tokens : List Token}
    (hTokens : ∀ token ∈ tokens, token.kind ≠ .newline) (hRest : s.rest = tokens)
    (hLine : s.line = []) :
    s.run = (readLines s.depth [⟨tokens, none⟩]).map fun passages =>
      ⟨s.blocks ++ pending s.floating passages⟩ := by
  have hAll : s.rest = tokens ++ [] := by rw [hRest, List.append_nil]
  cases hVerdict : verdict s.depth tokens with
  | closes token => rw [run_closes hTokens hVerdict hAll, map_readLines_closes hVerdict]
  | equation =>
    rw [run_equation hTokens (by simp) hVerdict hAll (by rw [hLine, List.append_nil]), hLine,
      map_readLines_equation hVerdict]
    congr 1
    funext e
    rw [run_nil rfl, readLines, Except.map, pending_equation, segments_nil]
    simp [paragraph_of_isWhite]
  | prose depth =>
    rw [run_prose hTokens hVerdict hAll, map_readLines_prose hVerdict, run_nil rfl, readLines,
      Except.map, pending_last]

/-- What a run makes of the lines that are left, from the beginning of a line. A paragraph being
collected is not followed by an empty line, since such a line would have ended it. -/
theorem run_eq_readLines {lines : List Line} {tokens : List Token} (hCuts : Cuts tokens lines)
    (hLexical : Token.AllLexical tokens) {s : Reading} (hRest : s.rest = tokens)
    (hLine : s.line = []) (hDepth : s.carried = s.depth)
    (hFloating : ∀ newline later, lines = ⟨[], some newline⟩ :: later →
      ∀ token ∈ s.floating, token.IsWhite) :
    s.run = (readLines s.depth lines).map fun passages =>
      ⟨s.blocks ++ pending s.floating passages⟩ := by
  -- an empty line is skipped together with the line before it
  generalize hLength : lines.length = n
  induction n using Nat.strongRecOn generalizing lines tokens s with
  | ind n ih =>
    cases hCuts with
    | last hTokens => exact run_last hTokens hRest hLine
    | @more line rest newline lines hTokens hNewline hCuts =>
      have hLater : Token.AllLexical rest := hLexical.right.rest
      have hWhite : newline.IsWhite := hLexical.right.first.isWhite hNewline
      have hBlank : line = [] → ∀ token ∈ s.floating, token.IsWhite := by
        rintro rfl
        exact hFloating newline lines rfl
      rw [List.length_cons] at hLength
      cases hVerdict : verdict s.depth line with
      | closes token => rw [run_closes hTokens hVerdict hRest, map_readLines_closes hVerdict]
      | equation =>
        rw [run_equation hTokens (by simpa using hNewline) hVerdict hRest
          (by rw [hLine, List.append_nil]), hLine, map_readLines_equation hVerdict]
        congr 1
        funext e
        rw [ih lines.length (by omega) hCuts hLater rfl rfl rfl (by simp) rfl, hDepth]
        congr 1
        funext passages
        rw [pending_equation, pending_of_isWhite (by simp)]
        simp
      | prose depth =>
        rw [run_prose hTokens hVerdict hRest, run_newline hNewline rfl,
          map_readLines_prose hVerdict]
        rcases hCuts.blank_or with ⟨next, tail, later, rfl, hNext, rfl, hTail⟩ | ⟨hHead, hFirst⟩
        · rw [List.length_cons] at hLength
          rw [lineEnd_blank hNext, map_readLines_prose rfl,
            ih later.length (by omega) hTail hLater.rest rfl rfl rfl (by simp) rfl]
          congr 1
          funext passages
          rw [pending_prose_blank rfl hBlank, pending_of_isWhite (by simp), List.append_assoc]
        · rw [lineEnd_not_blank hHead,
            ih lines.length (by omega) hCuts hLater rfl rfl rfl
              (fun next later hSame => absurd hSame (hFirst next later)) rfl]
          congr 1
          funext passages
          rw [pending_prose (by simpa using hWhite) hBlank]
          rfl

end Reading

namespace Document

theorem ofTokens_eq_ofLines {tokens : List Token} (hLexical : Token.AllLexical tokens) :
    ofTokens tokens = ofLines (cut tokens) := by
  have hCuts := cuts_cut tokens
  rw [ofTokens, Reading.run_eq_readLines hCuts hLexical rfl rfl rfl (by simp [Reading.start]),
    ofLines, Reading.start]
  cases hRead : readLines 0 (cut tokens) with
  | error e => rfl
  | ok passages =>
    have hText := Token.not_isWhite_of_readLines hLexical hRead
    rw [Except.map, Except.map, pending_of_isWhite (by simp), flatMap_draft_segments hText]
    rfl

/-- A document is read line by line. -/
theorem parse_eq_ofLines (t : Text) : parse t = ofLines (cut (tokenize t)) :=
  ofTokens_eq_ofLines (Token.lexical_tokenize t)

end Document

end ProseMath
