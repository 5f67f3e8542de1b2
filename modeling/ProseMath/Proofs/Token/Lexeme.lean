import Mathlib.Data.List.TakeWhile
import Mathlib.Tactic.Common
import ProseMath.Proofs.Token.Coverage

/-!
# Tokens of their class

The kind of a token says how it is spelled and what can stand next to it in the text: no token could
be longer, and an `x` is a multiplication sign exactly if its two neighbours make it one.

* `classified_lexeme?`: a lexeme is of its class, between the text in front of it and the rest.
* `exists_lexeme_of_mem_tokensAt`: every token comes from a lexeme at its offset.
* `tokenize_classified`: the tokens of a text are of their class.
-/

namespace ProseMath.Token

/-! ## Classes -/

/-- An `x` between two texts is a multiplication sign. -/
structure Times (before after : Text) : Prop where
  left : ∃ c ∈ before.getLast?, c = ' ' ∨ isNameChar c
  right : ∃ c ∈ after.head?, c = ' ' ∨ isNameStart c

/-- Digits in front of a text, with a fraction or without one, that do not go on in the text. -/
inductive Numeral (after : Text) : Text → Prop
  | whole {digits : Text} (hSome : digits ≠ []) (hDigits : ∀ c ∈ digits, Text.isDigit c)
    (hEnd : ∀ c ∈ after.head?, Text.isDigit c = false)
    (hPoint : ∀ c rest, after = '.' :: c :: rest → Text.isDigit c = false) : Numeral after digits
  | fraction {whole digits : Text} (hWhole : whole ≠ []) (hFirst : ∀ c ∈ whole, Text.isDigit c)
    (hSome : digits ≠ []) (hDigits : ∀ c ∈ digits, Text.isDigit c)
    (hEnd : ∀ c ∈ after.head?, Text.isDigit c = false) : Numeral after (whole ++ '.' :: digits)

/-- A name between two texts that does not go on in the second and is no multiplication sign. -/
inductive Name (before after : Text) : Text → Prop
  | intro {c : Char} {rest : Text} (hFirst : isNameStart c) (hRest : ∀ d ∈ rest, isNameChar d)
    (hEnd : ∀ d ∈ after.head?, isNameChar d = false)
    (hTimes : c = 'x' → ¬ Times before (rest ++ after)) : Name before after (c :: rest)

/-- The token texts of a kind that can stand between two texts. -/
def Classified (before text after : Text) : Kind → Prop
  | .unknown | .whitespace => False
  | .newline => text = ['\n']
  | .arrow => text = ['-', '>']
  | .minus => text = ['-'] ∧ after.head? ≠ some '>'
  | .comma => text = [',']
  | .equals => text = ['=']
  | .openParen => text = ['(']
  | .closeParen => text = [')']
  | .dot => text = ['.']
  | .plus => text = ['+']
  | .slash => text = ['/']
  | .backslash => text = ['\\']
  | .asterisk => text = ['*']
  | .exponent => text = ['^']
  | .colon => text = [':']
  | .openBrace => text = ['{']
  | .closeBrace => text = ['}']
  | .number => Numeral after text
  | .multiply => text = ['x'] ∧ Times before after
  | .identifier => Name before after text

theorem isTimes_iff {before after : Text} :
    isTimes before.getLast? after.head? ↔ Times before after := by
  have hParts : isTimes before.getLast? after.head? ↔
      (∃ c ∈ before.getLast?, c = ' ' ∨ isNameChar c) ∧
        ∃ c ∈ after.head?, c = ' ' ∨ isNameStart c := by
    simp [isTimes, Option.any_eq_true]
  rw [hParts]
  exact ⟨fun h => ⟨h.1, h.2⟩, fun h => ⟨h.left, h.right⟩⟩

/-! ## Lexemes -/

theorem not_of_mem_head?_dropWhile {p : Char → Bool} {t : Text} :
    ∀ c ∈ (t.dropWhile p).head?, p c = false := by
  intro c hc
  have hSome : t.dropWhile p ≠ [] := by
    intro hNone
    rw [hNone] at hc
    cases hc
  rw [List.head?_eq_some_head hSome] at hc
  cases hc
  exact List.head_dropWhile_not p hSome

theorem classified_operator {before after : Text} {c : Char} {kind : Kind}
    (hArrow : ¬ (c = '-' ∧ after.head? = some '>')) (h : operator? c = some kind) :
    Classified before [c] after kind := by
  unfold operator? at h
  split at h <;> cases h <;> first | rfl | exact ⟨rfl, fun hNext => hArrow ⟨rfl, hNext⟩⟩

theorem numeral_number {t : Text} (h : t.takeWhile Text.isDigit ≠ []) :
    Numeral (number t).rest (number t).text := by
  have hDigits : ∀ c ∈ t.takeWhile Text.isDigit, Text.isDigit c :=
    fun c hc => List.mem_takeWhile_imp hc
  have hEnd := @not_of_mem_head?_dropWhile Text.isDigit t
  unfold number
  split
  · rename_i rest hRest
    split
    · rename_i hFraction
      refine .fraction h hDigits ?_ (fun c hc => List.mem_takeWhile_imp hc)
        not_of_mem_head?_dropWhile
      cases rest with
      | nil => cases hFraction
      | cons c rest =>
        rw [List.takeWhile_cons_of_pos (p := Text.isDigit) hFraction]
        exact List.cons_ne_nil _ _
    · rename_i hFraction
      refine .whole h hDigits (hRest ▸ hEnd) ?_
      rintro c rest hPoint
      cases hPoint
      simpa using hFraction
  · rename_i hOther
    refine .whole h hDigits hEnd ?_
    intro c rest hPoint
    exact absurd hPoint (hOther _)

theorem name_of_not_times {before rest : Text} {c : Char} (hFirst : isNameStart c)
    (hTimes : ¬ (c = 'x' ∧ isTimes before.getLast? rest.head?)) :
    Name before ((c :: rest).dropWhile isNameChar) ((c :: rest).takeWhile isNameChar) := by
  have hName : isNameChar c := by rw [isNameChar, hFirst, Bool.true_or]
  rw [List.takeWhile_cons_of_pos hName, List.dropWhile_cons_of_pos hName]
  refine .intro hFirst (fun d hd => List.mem_takeWhile_imp hd) not_of_mem_head?_dropWhile ?_
  rw [List.takeWhile_append_dropWhile]
  exact fun hx h => hTimes ⟨hx, isTimes_iff.mpr h⟩

theorem classified_lexeme? {before t : Text} {l : Lexeme}
    (h : lexeme? before.getLast? t = some l) : Classified before l.text l.rest l.kind := by
  cases lexemeAt_of_lexeme? h with
  | newline _ => rfl
  | arrow _ => rfl
  | operator hArrow hOperator => exact classified_operator hArrow hOperator
  | multiply hTimes => exact ⟨rfl, isTimes_iff.mp hTimes⟩
  | number hDigit =>
    rw [number_kind]
    apply numeral_number
    rw [List.takeWhile_cons_of_pos hDigit]
    exact List.cons_ne_nil _ _
  | identifier hTimes hFirst => exact name_of_not_times hFirst hTimes

/-! ## Tokens -/

theorem exists_lexeme_of_mem_tokensAt {t : Text} {start n : Nat} (hStart : start ≤ n)
    {token : Token} (h : token ∈ tokensAt t start n) :
    ∃ (m : Nat) (l : Lexeme), lexeme? (t.take m).getLast? (t.drop m) = some l ∧
      token.kind = l.kind ∧ token.text = l.text ∧ token.offset = m := by
  -- every step leaves less of the text to be scanned
  generalize hLeft : t.length - n = left
  induction left using Nat.strongRecOn generalizing start n with
  | ind left ih =>
    cases hDrop : t.drop n with
    | nil =>
      rw [tokensAt, hDrop] at h
      cases h
    | cons c rest =>
      have hLength := congrArg List.length hDrop
      rw [List.length_drop, List.length_cons] at hLength
      by_cases hBlank : isBlank c
      · rw [tokensAt_blank hStart hDrop hBlank] at h
        exact ih _ (by omega) (Nat.le_succ_of_le hStart) h rfl
      rw [Bool.not_eq_true] at hBlank
      cases hLexeme : lexeme? (t.take n).getLast? (c :: rest) with
      | none =>
        rw [tokensAt_dropped hStart hDrop hBlank hLexeme] at h
        exact ih _ (by omega) (Nat.le_succ_of_le hStart) h rfl
      | some l =>
        rw [← hDrop] at hLexeme
        have hText := List.length_pos_iff.mpr (lexeme?_text_ne_nil hLexeme)
        rw [tokensAt_lexeme hLexeme] at h
        rcases List.mem_cons.mp h with rfl | h
        · exact ⟨n, l, hLexeme, rfl, rfl, rfl⟩
        · exact ih _ (by omega) (Nat.le_refl _) h rfl

/-- Every token of a text stands at its offset, between two texts that fit its class. -/
theorem tokenize_classified (t : Text) (token : Token) (hToken : token ∈ tokenize t) :
    ∃ before after, t = before ++ token.text ++ after ∧ token.offset = before.length ∧
      Classified before token.text after token.kind := by
  rw [tokenize_eq_tokensAt] at hToken
  obtain ⟨n, l, hLexeme, hKind, hText, hOffset⟩ :=
    exists_lexeme_of_mem_tokensAt (Nat.le_refl 0) hToken
  have hAppend := lexeme?_append hLexeme
  have hLess : n < t.length := by
    have hNonempty := List.length_pos_iff.mpr (lexeme?_text_ne_nil hLexeme)
    have hLength := congrArg List.length hAppend
    rw [List.length_append, List.length_drop] at hLength
    omega
  refine ⟨t.take n, l.rest, ?_, ?_, ?_⟩
  · rw [hText, List.append_assoc, hAppend, List.take_append_drop]
  · rw [hOffset, List.length_take, Nat.min_eq_left (Nat.le_of_lt hLess)]
  · rw [hText, hKind]
    exact classified_lexeme? hLexeme

/-- In ` xxsum` the second `x` is a multiplication sign too: the sign in front of it is a character
of names. -/
theorem tokenize_classified_times :
    ⟨.multiply, ['x'], 2, []⟩ ∈ tokenize " xxsum".toList ∧
      ∃ before after, " xxsum".toList = before ++ ['x'] ++ after ∧ (2 : Int) = before.length ∧
        Classified before ['x'] after .multiply := by
  have hToken : (⟨.multiply, ['x'], 2, []⟩ : Token) ∈ tokenize " xxsum".toList := by decide +kernel
  exact ⟨hToken, tokenize_classified _ _ hToken⟩

end ProseMath.Token
