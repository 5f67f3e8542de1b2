import Mathlib.Data.List.Infix
import Mathlib.Tactic.Common
import ProseMath.Proofs.Document.Recast
import ProseMath.Proofs.Expr.CallFault
import ProseMath.Proofs.Token.Coverage

/-!
# Errors point at what is wrong

Whatever is wrong with a document, the error names the offset of a token of the line in which it was
found, and that token is to blame: a closing parenthesis, the keyword of a call or the parenthesis
behind it, or the beginning of a line that was to be an equation.

* `Expr.callBlamed_of_parse`: errors of expressions point at calls.
* `Equation.parse_eq_error_cases`: errors of equations, also of those without an equals sign.
* `exists_blamed_readLines`: errors of lines.
* `Document.parse_error_offset`: errors of texts, by the characters at their offsets.
-/

namespace ProseMath

open Line

/-! ## Tokens that are to blame -/

/-- An error that points at a keyword, or at a parenthesis right behind one. -/
inductive CallBlamed (tokens : List Token) : SyntaxError → Prop
  | keyword {before after : List Token} {keyword : Token} {callee : Callee} {fault : Fault}
    (hTokens : tokens = before ++ keyword :: after)
    (hKeyword : Expr.pivot? keyword = some (.call callee)) (hFault : fault.kind = .malformedCall) :
    CallBlamed tokens ⟨fault, some keyword.offset⟩
  | paren {before after : List Token} {keyword paren : Token} {callee : Callee} {fault : Fault}
    (hTokens : tokens = before ++ keyword :: paren :: after)
    (hKeyword : Expr.pivot? keyword = some (.call callee)) (hParen : paren.kind = .openParen)
    (hFault : fault.kind = .malformedCall) : CallBlamed tokens ⟨fault, some paren.offset⟩

/-- An error that points at the token of a line which is to blame for it. -/
inductive Blamed (tokens : List Token) : SyntaxError → Prop
  | close {token : Token} (hToken : token ∈ tokens) (hClose : token.kind = .closeParen) :
    Blamed tokens ⟨.unexpectedClose, some token.offset⟩
  | call {e : SyntaxError} (h : CallBlamed tokens e) : Blamed tokens e
  | line {first sign : Token} (hFirst : first ∈ tokens.head?) (hMem : sign ∈ tokens)
    (hSign : sign.kind = .equals) :
    Blamed tokens ⟨.missingEquals (Token.stringify tokens), some first.offset⟩

namespace CallBlamed

variable {tokens : List Token} {e : SyntaxError}

theorem kind (h : CallBlamed tokens e) : e.fault.kind = .malformedCall := by
  cases h with
  | keyword _ _ hFault => exact hFault
  | paren _ _ _ hFault => exact hFault

/-- What is to blame in a piece is to blame in the whole. -/
theorem mono {whole : List Token} (h : CallBlamed tokens e) (hInfix : tokens <:+: whole) :
    CallBlamed whole e := by
  obtain ⟨a, b, rfl⟩ := hInfix
  cases h with
  | @keyword before after keyword _ _ hTokens hKeyword hFault =>
    have hWhole : a ++ tokens ++ b = (a ++ before) ++ keyword :: (after ++ b) := by simp [hTokens]
    exact .keyword hWhole hKeyword hFault
  | @paren before after keyword paren _ _ hTokens hKeyword hParen hFault =>
    have hWhole : a ++ tokens ++ b = (a ++ before) ++ keyword :: paren :: (after ++ b) := by
      simp [hTokens]
    exact .paren hWhole hKeyword hParen hFault

theorem exists_offset (h : CallBlamed tokens e) :
    ∃ token ∈ tokens, e.offset = some token.offset := by
  cases h with
  | @keyword _ _ keyword _ _ hTokens _ _ => exact ⟨keyword, by simp [hTokens], rfl⟩
  | @paren _ _ _ paren _ _ hTokens _ _ _ => exact ⟨paren, by simp [hTokens], rfl⟩

end CallBlamed

theorem Blamed.exists_offset {tokens : List Token} {e : SyntaxError} (h : Blamed tokens e) :
    ∃ token ∈ tokens, e.offset = some token.offset := by
  cases h with
  | close hToken _ => exact ⟨_, hToken, rfl⟩
  | call h => exact h.exists_offset
  | line hFirst _ _ => exact ⟨_, List.mem_of_mem_head? hFirst, rfl⟩

/-! ## Expressions and equations -/

theorem Expr.CallFault.callBlamed {callee : Callee} {keyword : Token} {rest : List Token}
    {e : SyntaxError} (h : CallFault callee keyword rest e)
    (hKeyword : pivot? keyword = some (.call callee)) : CallBlamed (keyword :: rest) e := by
  cases h with
  | notFollowed _ => exact .keyword (List.nil_append _).symm hKeyword rfl
  | unclosed hOpen _ => exact .paren (List.nil_append _).symm hKeyword hOpen rfl
  | arity _ _ _ => exact .keyword (List.nil_append _).symm hKeyword rfl

theorem Expr.callBlamed_of_firstFault {tokens : List Token} {e : SyntaxError}
    (h : firstFault tokens = some e) : CallBlamed tokens e := by
  induction tokens with
  | nil => cases h
  | cons token rest ih =>
    rw [firstFault, Option.or_eq_some_iff] at h
    rcases h with h | ⟨_, h⟩
    · rw [callFault?] at h
      split at h
      · rename_i callee hKeyword
        have hFault := readCall_eq_error_iff.mp (fault?_eq_some_iff.mp h)
        exact hFault.callBlamed hKeyword
      · cases h
    · exact (ih h).mono (List.suffix_cons _ _).isInfix

theorem Expr.callBlamed_of_parse {tokens : List Token} {e : SyntaxError}
    (h : Expr.parse tokens = .error e) : CallBlamed tokens e := by
  apply callBlamed_of_firstFault
  rw [← fault?_parse]
  exact fault?_eq_some_iff.mpr h

theorem exists_of_bind_eq_error {ε α β : Type} {x : Except ε α} {f : α → Except ε β} {e : ε}
    (h : x >>= f = .error e) : x = .error e ∨ ∃ a, x = .ok a ∧ f a = .error e := by
  cases x with
  | error other => cases h; exact Or.inl rfl
  | ok a => exact Or.inr ⟨a, rfl, h⟩

/-- An equation fails because it has no equals sign outside parentheses, or at a call. -/
theorem Equation.parse_eq_error_cases {tokens : List Token} {e : SyntaxError}
    (h : Equation.parse tokens = .error e) :
    (Token.splitEquals? 0 tokens = none ∧
        e = .atFirst (.missingEquals (Token.stringify tokens)) tokens) ∨
      CallBlamed tokens e := by
  rw [Equation.parse] at h
  split at h
  · rename_i left right hSplit
    obtain ⟨sign, _, rfl, _⟩ := Token.splitEquals?_eq_some_iff.mp hSplit
    refine Or.inr ?_
    rcases exists_of_bind_eq_error h with hLeft | ⟨_, _, h⟩
    · exact (Expr.callBlamed_of_parse hLeft).mono (List.prefix_append _ _).isInfix
    · rcases exists_of_bind_eq_error h with hRight | ⟨_, _, h⟩
      · have hSuffix := (List.suffix_cons sign right).trans (List.suffix_append left _)
        exact (Expr.callBlamed_of_parse hRight).mono hSuffix.isInfix
      · cases h
  · rename_i hNone
    cases h
    exact Or.inl ⟨hNone, rfl⟩

/-! ## Lines -/

theorem Equation.blamed_of_parse {tokens : List Token} {e : SyntaxError}
    (h : Equation.parse tokens = .error e) (hSign : ∃ sign ∈ tokens, sign.kind = .equals) :
    Blamed tokens e := by
  obtain ⟨sign, hMem, hSign⟩ := hSign
  rcases Equation.parse_eq_error_cases h with ⟨_, rfl⟩ | hCall
  · cases tokens with
    | nil => cases hMem
    | cons first rest => exact .line rfl hMem hSign
  · exact .call hCall

/-- An error of some lines is to be blamed on one of them. -/
theorem exists_blamed_readLines {depth : Nat} {lines : List Line} {e : SyntaxError}
    (h : readLines depth lines = .error e) : ∃ line ∈ lines, Blamed line.tokens e := by
  induction lines generalizing depth with
  | nil => cases h
  | cons line rest ih =>
    have hLater (after : Nat) (h : readLines after rest = .error e) :
        ∃ other ∈ line :: rest, Blamed other.tokens e := by
      obtain ⟨other, hOther, hBlamed⟩ := ih h
      exact ⟨other, List.mem_cons_of_mem _ hOther, hBlamed⟩
    rw [readLines] at h
    split at h
    · rename_i token hVerdict
      cases h
      obtain ⟨hToken, hClose⟩ := closes_of_verdict hVerdict
      exact ⟨line, List.mem_cons_self, .close hToken hClose⟩
    · rename_i hVerdict
      rcases exists_of_bind_eq_error h with hEquation | ⟨_, _, h⟩
      · have hSign := exists_equals_of_verdict hVerdict
        exact ⟨line, List.mem_cons_self, Equation.blamed_of_parse hEquation hSign⟩
      · rcases exists_of_bind_eq_error h with h | ⟨_, _, h⟩
        · exact hLater _ h
        · cases h
    · rcases exists_of_bind_eq_error h with h | ⟨_, _, h⟩
      · exact hLater _ h
      · cases h

/-- A line is a piece of the tokens from which it was cut. -/
theorem Cuts.infix_of_mem {tokens : List Token} {lines : List Line} (h : Cuts tokens lines)
    {line : Line} (hLine : line ∈ lines) : line.tokens <:+: tokens := by
  induction h with
  | last _ =>
    rw [List.mem_singleton.mp hLine]
  | @more tokens rest newline _ _ _ _ ih =>
    rcases List.mem_cons.mp hLine with rfl | hLine
    · exact (List.prefix_append _ _).isInfix
    · have hSuffix := (List.suffix_cons newline rest).trans (List.suffix_append tokens _)
      exact (ih hLine).trans hSuffix.isInfix

/-! ## Characters -/

namespace Token

variable {t : Text} {token : Token}

theorem offset_of_mem_tokenize (h : token ∈ tokenize t) : token.offset = token.start ∧
    token.start < t.length ∧ t[token.start]? = token.text.head? := by
  have hCovers : Covers 0 t (tokenize t) := by
    rw [tokenize_eq_tokensAt]
    exact (standing_zero t).covers
  obtain ⟨before, after, hSplit⟩ := List.append_of_mem h
  have hPlaced := hCovers.placed before token after hSplit
  have hText := (lexical_tokenize t token h).spells.text_ne_nil
  have hHead : t[token.start]? = token.text.head? := by
    rw [← List.head?_drop, hPlaced.drop_text, List.head?_append_of_ne_nil _ hText]
  refine ⟨hPlaced.offset, ?_, hHead⟩
  rw [List.head?_eq_some_head hText] at hHead
  exact (List.getElem?_eq_some_iff.mp hHead).1

/-- The character of a punctuation token stands at its offset. -/
theorem getElem?_start_of_operator? (h : token ∈ tokenize t) {c : Char}
    (hOperator : operator? c = some token.kind) : t[token.start]? = some c := by
  have hText := (lexical_tokenize t token h).spells.eq_singleton hOperator
  rw [(offset_of_mem_tokenize h).2.2, hText]
  rfl

end Token

theorem Expr.keywordAt_of_pivot? {before after : List Token} {keyword : Token} {callee : Callee}
    (h : pivot? keyword = some (.call callee)) :
    KeywordAt (before ++ keyword :: after) before.length callee keyword := by
  obtain ⟨hKind, hText⟩ := pivot?_eq_call_iff.mp h
  exact ⟨by simp, hKind, hText⟩

namespace Document

/-- What is found in a text at the offset of an error. -/
def ReportedAt (t : Text) (offset : Nat) : FaultKind → Prop
  | .unbalancedParenthesis => t[offset]? = some ')'
  | .malformedCall =>
    (∃ index callee keyword, Expr.KeywordAt (tokenize t) index callee keyword ∧
        keyword.offset = offset) ∨
      t[offset]? = some '(' ∧
        ∃ index callee keyword paren, Expr.KeywordAt (tokenize t) index callee keyword ∧
          (tokenize t)[index + 1]? = some paren ∧ paren.offset = offset
  | .missingEquals =>
    ∃ line ∈ cut (tokenize t), (∃ first ∈ line.tokens.head?, first.offset = offset) ∧
      ∃ sign ∈ line.tokens, sign.kind = .equals

theorem reportedAt_of_callBlamed {t : Text} {e : SyntaxError} (h : CallBlamed (tokenize t) e) :
    ∃ token ∈ tokenize t, e.offset = some token.offset ∧
      ReportedAt t token.start .malformedCall := by
  cases h with
  | @keyword before after keyword callee _ hTokens hKeyword _ =>
    have hMem : keyword ∈ tokenize t := by simp [hTokens]
    refine ⟨keyword, hMem, rfl, Or.inl ⟨before.length, callee, keyword, ?_, ?_⟩⟩
    · rw [hTokens]
      exact Expr.keywordAt_of_pivot? hKeyword
    · exact (Token.offset_of_mem_tokenize hMem).1
  | @paren before after keyword paren callee _ hTokens hKeyword hParen _ =>
    have hMem : paren ∈ tokenize t := by simp [hTokens]
    refine ⟨paren, hMem, rfl, Or.inr ⟨?_, before.length, callee, keyword, paren, ?_, ?_, ?_⟩⟩
    · exact Token.getElem?_start_of_operator? hMem (hParen ▸ rfl)
    · rw [hTokens]
      exact Expr.keywordAt_of_pivot? hKeyword
    · simp [hTokens]
    · exact (Token.offset_of_mem_tokenize hMem).1

theorem exists_blamed_of_parse {t : Text} {e : SyntaxError} (h : parse t = .error e) :
    ∃ line ∈ cut (tokenize t), Blamed line.tokens e := by
  rw [parse_eq_map_readLines] at h
  cases hRead : readLines 0 (cut (tokenize t)) with
  | ok passages =>
    rw [hRead] at h
    cases h
  | error fault =>
    rw [hRead] at h
    cases h
    exact exists_blamed_readLines hRead

/-- An error of a text points into the text, at what is wrong there. -/
theorem parse_error_offset (t : Text) (e : SyntaxError) (h : parse t = .error e) :
    ∃ offset : Nat, e.offset = some (offset : Int) ∧ offset < t.length ∧
      ReportedAt t offset e.fault.kind := by
  have hCuts := cuts_cut (tokenize t)
  obtain ⟨line, hLine, hBlamed⟩ := exists_blamed_of_parse h
  obtain ⟨token, hMem, hOffset, hReported⟩ : ∃ token ∈ tokenize t,
      e.offset = some token.offset ∧ ReportedAt t token.start e.fault.kind := by
    cases hBlamed with
    | @close token hToken hClose =>
      have hMem := (hCuts.of_mem hLine token hToken).1
      exact ⟨token, hMem, rfl, Token.getElem?_start_of_operator? hMem (hClose ▸ rfl)⟩
    | call hCall =>
      rw [hCall.kind]
      exact reportedAt_of_callBlamed (hCall.mono (hCuts.infix_of_mem hLine))
    | @line first sign hFirst hSign hEquals =>
      have hMem := (hCuts.of_mem hLine first (List.mem_of_mem_head? hFirst)).1
      refine ⟨first, hMem, rfl, line, hLine, ⟨first, hFirst, ?_⟩, sign, hSign, hEquals⟩
      exact (Token.offset_of_mem_tokenize hMem).1
  obtain ⟨hStart, hInside, _⟩ := Token.offset_of_mem_tokenize hMem
  exact ⟨token.start, by rw [hOffset, hStart], hInside, hReported⟩

/-- In `(see⏎note) a = b` the equals sign stands behind a parenthesis that closes one of the line
before, so the second line by itself has no sign outside parentheses. The error is reported at the
beginning of that line. -/
theorem parse_error_offset_note :
    parse "(see\nnote) a = b".toList = .error ⟨.missingEquals "note)a=b".toList, some 5⟩ ∧
      ∃ offset : Nat, some 5 = some (offset : Int) ∧ offset < "(see\nnote) a = b".toList.length ∧
        ReportedAt "(see\nnote) a = b".toList offset .missingEquals := by
  have hFault : Expr.fault? (parse "(see\nnote) a = b".toList) =
      some ⟨.missingEquals "note)a=b".toList, some 5⟩ := by decide +kernel
  have hError := Expr.fault?_eq_some_iff.mp hFault
  exact ⟨hError, parse_error_offset _ _ hError⟩

end Document

end ProseMath
