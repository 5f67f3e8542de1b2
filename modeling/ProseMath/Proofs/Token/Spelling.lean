import Mathlib.Data.Bool.AllAny
import Mathlib.Data.List.TakeWhile
import Mathlib.Tactic.Common
import ProseMath.Token.Scan

/-!
# The spelling of scanned tokens

A scanned token is not any pair of a kind and a text: its kind fixes how it can be spelled.
`Spells kind text` is that relation, and a token is lexical (`Lexical`) if it is spelled so and the
text in front of it is blank.

* `lexeme?_spells`: a lexeme is spelled as its kind allows.
* `lexical_tokenize`: all tokens of a text are lexical.
* `Spells.eq_of_mem_operator`: a punctuation character, unless it is a point or a minus sign, is
  always a token of its own.
-/

namespace ProseMath.Token

/-- The texts that a scanned token of a kind can have. -/
inductive Spells : Kind → Text → Prop
  | newline : Spells .newline ['\n']
  | arrow : Spells .arrow ['-', '>']
  | operator {c : Char} {kind : Kind} (hOperator : operator? c = some kind) : Spells kind [c]
  | multiply : Spells .multiply ['x']
  | number {t : Text} (hNonempty : t ≠ []) (hChars : ∀ c ∈ t, Text.isDigit c ∨ c = '.') :
    Spells .number t
  | identifier {t : Text} (hNonempty : t ≠ []) (hChars : ∀ c ∈ t, isNameChar c) :
    Spells .identifier t

/-- A token as a scan gives it. -/
structure Lexical (token : Token) : Prop where
  spells : Spells token.kind token.text
  space : ∀ c ∈ token.space, isBlank c

/-- Tokens as a scan gives them. -/
def AllLexical (tokens : List Token) : Prop := ∀ token ∈ tokens, token.Lexical

namespace AllLexical

variable {a b : List Token} {token : Token}

theorem left (h : AllLexical (a ++ b)) : AllLexical a := (List.forall_mem_append.mp h).1

theorem right (h : AllLexical (a ++ b)) : AllLexical b := (List.forall_mem_append.mp h).2

theorem first (h : AllLexical (token :: a)) : token.Lexical := (List.forall_mem_cons.mp h).1

theorem rest (h : AllLexical (token :: a)) : AllLexical a := (List.forall_mem_cons.mp h).2

end AllLexical

theorem stringify_cons (token : Token) (tokens : List Token) :
    stringify (token :: tokens) = token.text ++ stringify tokens := rfl

theorem stringify_append (a b : List Token) : stringify (a ++ b) = stringify a ++ stringify b :=
  List.flatMap_append

theorem stringify_ne_nil {tokens : List Token} (hTexts : ∀ token ∈ tokens, token.text ≠ [])
    (h : tokens ≠ []) : stringify tokens ≠ [] := by
  obtain ⟨token, rest, rfl⟩ := List.exists_cons_of_ne_nil h
  rw [stringify_cons]
  exact List.append_ne_nil_of_left_ne_nil (hTexts token List.mem_cons_self) _

/-! ## Character classes exclude each other -/

/-- The punctuation characters. -/
def punctuation : Text := ['^', '-', '{', '}', ',', ':', '+', '/', '\\', '*', '(', ')', '.', '=']

theorem mem_punctuation {c : Char} {kind : Kind} (h : operator? c = some kind) :
    c ∈ punctuation := by
  unfold operator? at h
  split at h <;> first | decide | cases h

theorem not_isNameChar_of_operator? {c : Char} {kind : Kind} (h : operator? c = some kind) :
    isNameChar c = false := by
  have hAll : ∀ c ∈ punctuation, isNameChar c = false := List.all_iff_forall_prop.mp (by decide)
  exact hAll c (mem_punctuation h)

theorem not_isSpace_of_operator? {c : Char} {kind : Kind} (h : operator? c = some kind) :
    Text.isSpace c = false := by
  have hAll : ∀ c ∈ punctuation, Text.isSpace c = false := List.all_iff_forall_prop.mp (by decide)
  exact hAll c (mem_punctuation h)

theorem operator?_injective {c d : Char} {kind : Kind} (hc : operator? c = some kind)
    (hd : operator? d = some kind) : c = d := by
  have hAll : ∀ c ∈ punctuation, punctuation.all fun d => operator? c = operator? d → c = d :=
    List.all_iff_forall_prop.mp (by decide)
  have hSame := List.all_iff_forall_prop.mp (hAll c (mem_punctuation hc)) d (mem_punctuation hd)
  exact hSame (hc.trans hd.symm)

/-- The kinds that are not of a single punctuation character. -/
theorem operator?_ne {c : Char} {kind : Kind}
    (hKind : kind ∈ [.newline, .arrow, .multiply, .number, .identifier]) :
    operator? c ≠ some kind := by
  intro h
  have hAll : ∀ c ∈ punctuation, ∀ kind ∈ [.newline, .arrow, .multiply, .number, .identifier],
      operator? c ≠ some kind := List.all_iff_forall_prop.mp (by decide)
  exact hAll c (mem_punctuation h) kind hKind h

theorem isNameChar_of_isDigit {c : Char} (h : Text.isDigit c) : isNameChar c := by
  simp [isNameChar, h]

theorem not_isSpace_of_le {c first last : Char} (hFirst : '!' ≤ first) (hLast : last ≤ '~')
    (h : first ≤ c ∧ c ≤ last) : Text.isSpace c = false := by
  have hLow : 33 ≤ c.toNat := UInt32.le_iff_toNat_le.mp (Char.le_trans hFirst h.1)
  have hHigh : c.toNat ≤ 126 := UInt32.le_iff_toNat_le.mp (Char.le_trans h.2 hLast)
  simp only [Text.isSpace, Bool.or_eq_false_iff, Bool.and_eq_false_iff, decide_eq_false_iff_not,
    beq_eq_false_iff_ne]
  omega

theorem not_isSpace_of_isNameChar {c : Char} (h : isNameChar c) : Text.isSpace c = false := by
  have hClasses : (Text.isLetter c ∨ c ∈ "_äöüÄÖÜß".toList) ∨ Text.isDigit c := by
    simpa only [isNameChar, isNameStart, Bool.or_eq_true, List.contains_iff_mem] using h
  rcases hClasses with (hLetter | hOther) | hDigit
  · rw [Text.isLetter, Bool.or_eq_true, Bool.and_eq_true, Bool.and_eq_true] at hLetter
    simp only [decide_eq_true_eq] at hLetter
    rcases hLetter with hSmall | hCapital
    · exact not_isSpace_of_le (by decide) (by decide) hSmall
    · exact not_isSpace_of_le (by decide) (by decide) hCapital
  · have hAll : ∀ c ∈ "_äöüÄÖÜß".toList, Text.isSpace c = false :=
      List.all_iff_forall_prop.mp (by decide)
    exact hAll c hOther
  · rw [Text.isDigit, Bool.and_eq_true, decide_eq_true_eq, decide_eq_true_eq] at hDigit
    exact not_isSpace_of_le (by decide) (by decide) hDigit

theorem isSpace_of_isBlank {c : Char} (h : isBlank c) : Text.isSpace c := by
  have hCases : (c = ' ' ∨ c = '\t') ∨ c = '\r' := by
    simpa only [isBlank, Bool.or_eq_true, beq_iff_eq] using h
  rcases hCases with (rfl | rfl) | rfl <;> decide

/-! ## Lexemes -/

theorem number_kind (t : Text) : (number t).kind = .number := by
  unfold number
  split
  · split <;> rfl
  · rfl

theorem number_chars {t : Text} {c : Char} (h : c ∈ (number t).text) :
    Text.isDigit c ∨ c = '.' := by
  unfold number at h
  split at h
  · rename_i rest hRest
    split at h
    · rcases List.mem_append.mp h with hWhole | hFraction
      · exact Or.inl (List.mem_takeWhile_imp hWhole)
      · rcases List.mem_cons.mp hFraction with rfl | hDigit
        · exact Or.inr rfl
        · exact Or.inl (List.mem_takeWhile_imp hDigit)
    · exact Or.inl (List.mem_takeWhile_imp h)
  · exact Or.inl (List.mem_takeWhile_imp h)

theorem lexeme?_spells {before : Option Char} {t : Text} {l : Lexeme}
    (h : lexeme? before t = some l) : Spells l.kind l.text := by
  have hNonempty := lexeme?_text_ne_nil h
  cases lexemeAt_of_lexeme? h with
  | newline _ => exact .newline
  | arrow _ => exact .arrow
  | operator _ hOperator => exact .operator hOperator
  | multiply _ => exact .multiply
  | number _ =>
    rw [number_kind]
    exact .number hNonempty fun c hc => number_chars hc
  | identifier _ _ => exact .identifier hNonempty fun c hc => List.mem_takeWhile_imp hc

namespace Spells

variable {kind : Kind} {t : Text}

theorem text_ne_nil (h : Spells kind t) : t ≠ [] := by
  cases h with
  | number hNonempty _ => exact hNonempty
  | identifier hNonempty _ => exact hNonempty
  | _ => simp

/-- Of the texts of tokens only the newline is white space. -/
theorem not_isSpace (h : Spells kind t) (hNewline : kind ≠ .newline) :
    ∀ c ∈ t, Text.isSpace c = false := by
  intro c hc
  cases h with
  | newline => exact absurd rfl hNewline
  | arrow =>
    have hAll : ∀ c ∈ ['-', '>'], Text.isSpace c = false := List.all_iff_forall_prop.mp (by decide)
    exact hAll c hc
  | operator hOperator =>
    rw [List.mem_singleton.mp hc]
    exact not_isSpace_of_operator? hOperator
  | multiply => rw [List.mem_singleton.mp hc]; decide
  | number _ hChars =>
    rcases hChars c hc with hDigit | rfl
    · exact not_isSpace_of_isNameChar (isNameChar_of_isDigit hDigit)
    · decide
  | identifier _ hChars => exact not_isSpace_of_isNameChar (hChars c hc)

theorem eq_newline (h : Spells .newline t) : t = ['\n'] := by
  cases h with
  | newline => rfl
  | operator hOperator => exact absurd hOperator (operator?_ne (by decide))

theorem not_isBlank (h : Spells kind t) : ∀ c ∈ t, isBlank c = false := by
  intro c hc
  by_cases hNewline : kind = .newline
  · subst hNewline
    rw [h.eq_newline, List.mem_singleton] at hc
    rw [hc]
    decide
  · rw [Bool.eq_false_iff]
    intro hBlank
    have hSpace := h.not_isSpace hNewline c hc
    rw [isSpace_of_isBlank hBlank] at hSpace
    cases hSpace

theorem not_mem_newline (h : Spells kind t) (hNewline : kind ≠ .newline) : '\n' ∉ t := by
  intro hMem
  cases h.not_isSpace hNewline '\n' hMem

theorem not_mem_dollar (h : Spells kind t) : '$' ∉ t := by
  intro hMem
  cases h with
  | newline => exact absurd hMem (by decide)
  | arrow => exact absurd hMem (by decide)
  | operator hOperator =>
    rw [← List.mem_singleton.mp hMem] at hOperator
    cases hOperator
  | multiply => exact absurd hMem (by decide)
  | number _ hChars => exact absurd (hChars '$' hMem) (by decide)
  | identifier _ hChars => exact absurd (hChars '$' hMem) (by decide)

/-- A point can be part of a number and a minus sign part of an arrow; every other punctuation
character is a token of its own. -/
theorem eq_of_mem_operator (h : Spells kind t) {c : Char} {k : Kind}
    (hOperator : operator? c = some k) (hMinus : c ≠ '-') (hPoint : c ≠ '.') (hc : c ∈ t) :
    kind = k ∧ t = [c] := by
  have hName := not_isNameChar_of_operator? hOperator
  cases h with
  | newline =>
    rw [List.mem_singleton.mp hc] at hOperator
    cases hOperator
  | arrow =>
    rcases List.mem_cons.mp hc with rfl | hc
    · exact absurd rfl hMinus
    · rw [List.mem_singleton.mp hc] at hOperator
      cases hOperator
  | operator hOther =>
    obtain rfl := List.mem_singleton.mp hc
    rw [hOperator] at hOther
    cases hOther
    exact ⟨rfl, rfl⟩
  | multiply =>
    rw [List.mem_singleton.mp hc] at hOperator
    cases hOperator
  | number _ hChars =>
    rcases hChars c hc with hDigit | rfl
    · rw [isNameChar_of_isDigit hDigit] at hName
      cases hName
    · exact absurd rfl hPoint
  | identifier _ hChars =>
    rw [hChars c hc] at hName
    cases hName

/-- A token of the kind of a punctuation character is that character. -/
theorem eq_singleton (h : Spells kind t) {c : Char} (hOperator : operator? c = some kind) :
    t = [c] := by
  cases h with
  | operator hOther => rw [operator?_injective hOther hOperator]
  | _ => exact absurd hOperator (operator?_ne (by decide))

end Spells

theorem not_isBlank_of_lexeme? {before : Option Char} {c : Char} {t : Text} {l : Lexeme}
    (h : lexeme? before (c :: t) = some l) : isBlank c = false := by
  have hAppend := lexeme?_append h
  have hSpells := lexeme?_spells h
  cases hText : l.text with
  | nil => exact absurd hText hSpells.text_ne_nil
  | cons d rest =>
    rw [hText, List.cons_append] at hAppend
    obtain ⟨rfl, _⟩ := List.cons.inj hAppend
    exact hSpells.not_isBlank d (by simp [hText])

/-! ## The scan -/

theorem lexical_nextIn {before : Option Char} {offset : Nat} {space t : Text} {token : Token}
    {cursor : Cursor} (hSpace : ∀ c ∈ space, isBlank c)
    (h : Cursor.nextIn before offset space t = some (token, cursor)) : token.Lexical := by
  induction t generalizing before offset space with
  | nil => cases h
  | cons c rest ih =>
    rw [Cursor.nextIn] at h
    split at h
    · rename_i hBlank
      refine ih ?_ h
      intro d hd
      rcases List.mem_append.mp hd with hd | hd
      · exact hSpace d hd
      · rw [List.mem_singleton.mp hd]
        exact hBlank
    · split at h
      · exact ih hSpace h
      · rename_i hLexeme
        cases h
        exact ⟨lexeme?_spells hLexeme, hSpace⟩

theorem lexical_tokens (cursor : Cursor) : AllLexical cursor.tokens := by
  -- the recursion of `tokens` is on what is left to scan
  generalize hLength : cursor.rest.length = n
  induction n using Nat.strongRecOn generalizing cursor with
  | ind n ih =>
    intro token hToken
    rw [Cursor.tokens] at hToken
    split at hToken
    · simp at hToken
    · rename_i first after hNext
      rcases List.mem_cons.mp hToken with rfl | hToken
      · exact lexical_nextIn (by simp) hNext
      · exact ih _ (hLength ▸ Cursor.next?_shorter hNext) after rfl token hToken

theorem lexical_tokenize (t : Text) : AllLexical (tokenize t) :=
  lexical_tokens (Cursor.start t)

end ProseMath.Token
