import Mathlib.Data.List.DropRight
import Mathlib.Tactic.Common
import ProseMath.Proofs.Token.Rescan

/-!
# Tokens cover their text

Every token stands in its text where its offset says. Between two tokens, in front of the first and
behind the last there are gaps, and a gap holds only blanks, which the next token keeps, and
characters that no token contains (`isDropped`).

* `Placed.cons`: a token in its place, in front of tokens that cover what follows.
* `Standing.cases`: all that a scan can do at an index.
* `Standing.covers`: a scan that has come to an index covers the text from the last token on.
* `content_of_covers`: tokens that cover a text have its recognised characters as their content.
* `content_tokenize_content`: scanning the content of tokens again drops nothing.
* `tokenize_covers`: the tokens of a text cover it.
-/

namespace ProseMath.Token

/-! ## Places -/

/-- The index of the first character of a token. -/
def start (token : Token) : Nat := token.offset.toNat

/-- The index behind the last character of a token. -/
def stop (token : Token) : Nat := token.start + token.text.length

/-- The index behind the last of some tokens, `start` if there is none. -/
def reach (start : Nat) (tokens : List Token) : Nat := (tokens.getLast?.map stop).getD start

theorem reach_cons (start : Nat) (token : Token) (tokens : List Token) :
    reach start (token :: tokens) = reach token.stop tokens := by
  rw [reach, List.getLast?_cons, reach]
  cases tokens.getLast? <;> rfl

/-- A character behind `before` that no token contains: it is neither a blank nor a newline, no
punctuation, no digit or other character of a name, and does not end an arrow. -/
def isDropped (before : Option Char) (c : Char) : Bool :=
  !(isBlank c || c == '\n' || (operator? c).isSome || isNameChar c ||
    (c == '>' && before == some '-'))

/-- A text behind `before` without the characters that no token contains. -/
def recognised (before : Option Char) : Text → Text
  | [] => []
  | c :: t => if isDropped before c then recognised (some c) t else c :: recognised (some c) t

/-- Between two indices there are only blanks and characters that no token contains. -/
def Gap (t : Text) (start stop : Nat) : Prop :=
  ∀ index, start ≤ index → index < stop →
    ∃ c, t[index]? = some c ∧ (isBlank c ∨ isDropped (t.take index).getLast? c)

/-- A token in its place, where the token in front of it stops at `start`. -/
structure Placed (t : Text) (start : Nat) (token : Token) : Prop where
  offset : token.offset = token.start
  behind : start ≤ token.start
  text : t.extract token.start token.stop = token.text
  space : token.space = (t.extract start token.start).filter isBlank
  gap : Gap t start token.start

/-- Tokens that stand in their places, with gaps between them, from the index `start` on. -/
structure Covers (start : Nat) (t : Text) (tokens : List Token) : Prop where
  placed : ∀ before token after, tokens = before ++ token :: after →
    Placed t (reach start before) token
  rest : Gap t (reach start tokens) t.length

theorem Placed.cons {start : Nat} {t : Text} {token : Token} {tokens : List Token}
    (hToken : Placed t start token) (h : Covers token.stop t tokens) :
    Covers start t (token :: tokens) := by
  constructor
  · intro before other after hSplit
    cases before with
    | nil =>
      cases hSplit
      exact hToken
    | cons first before =>
      obtain ⟨rfl, hLater⟩ := List.cons.inj hSplit
      rw [reach_cons]
      exact h.placed before other after hLater
  · rw [reach_cons]
    exact h.rest

theorem Covers.first {start : Nat} {t : Text} {token : Token} {tokens : List Token}
    (h : Covers start t (token :: tokens)) : Placed t start token :=
  h.placed [] token tokens rfl

theorem Covers.tail {start : Nat} {t : Text} {token : Token} {tokens : List Token}
    (h : Covers start t (token :: tokens)) : Covers token.stop t tokens := by
  constructor
  · intro before other after hSplit
    have hPlaced := h.placed (token :: before) other after (by rw [hSplit, List.cons_append])
    rwa [reach_cons] at hPlaced
  · have hRest := h.rest
    rwa [reach_cons] at hRest

/-! ## Gaps -/

theorem gap_refl (t : Text) (start : Nat) : Gap t start start := by
  intro index hFirst hLast
  omega

theorem Gap.succ {t : Text} {start n : Nat} {c : Char} (h : Gap t start n)
    (hChar : t[n]? = some c) (hSkipped : isBlank c ∨ isDropped (t.take n).getLast? c) :
    Gap t start (n + 1) := by
  intro index hFirst hLast
  by_cases hOld : index < n
  · exact h index hFirst hOld
  · obtain rfl : index = n := by omega
    exact ⟨c, hChar, hSkipped⟩

theorem Gap.later {t : Text} {start n : Nat} (h : Gap t start n) : Gap t (start + 1) n := by
  intro index hFirst hLast
  exact h index (by omega) hLast

/-- Whatever starts no token is no character of a token, unless it ends an arrow. -/
theorem isDropped_of_lexeme? {before : Option Char} {c : Char} {t : Text}
    (hBlank : isBlank c = false) (hArrow : before = some '-' → c ≠ '>')
    (h : lexeme? before (c :: t) = none) : isDropped before c := by
  have hSolid : ¬ IsSolid c := by
    intro hSolid
    obtain ⟨l, hl⟩ := exists_lexeme_of_isSolid hSolid before t
    rw [h] at hl
    cases hl
  have hNewline : c ≠ '\n' := fun hc => hSolid (Or.inl hc)
  have hOperator : (operator? c).isSome = false := by
    rw [Bool.eq_false_iff]
    exact fun hc => hSolid (Or.inr (Or.inl hc))
  have hName : isNameChar c = false := by
    rw [Bool.eq_false_iff]
    exact fun hc => hSolid (Or.inr (Or.inr hc))
  have hEnd : (c == '>' && before == some '-') = false := by
    rw [Bool.and_eq_false_iff, beq_eq_false_iff_ne, beq_eq_false_iff_ne]
    by_cases hMinus : before = some '-'
    · exact Or.inl (hArrow hMinus)
    · exact Or.inr hMinus
  simp [isDropped, hBlank, hNewline, hOperator, hName, hEnd]

theorem not_isDropped_of_isSolid {before : Option Char} {c : Char} (h : IsSolid c) :
    isDropped before c = false := by
  rcases h with h | h | h <;> simp [isDropped, h]

/-! ## The scan -/

/-- The scan does not stand inside an arrow. -/
def Uncut (before : Option Char) (t : Text) : Prop := before = some '-' → t.head? ≠ some '>'

/-- Of the texts of tokens only the minus sign ends in one. -/
theorem Spells.eq_minus {kind : Kind} {t : Text} (h : Spells kind t)
    (hLast : t.getLast? = some '-') : t = ['-'] := by
  have hMem : '-' ∈ t := List.mem_of_getLast? hLast
  cases h with
  | newline => cases hLast
  | arrow => cases hLast
  | operator _ => cases hLast; rfl
  | multiply => cases hLast
  | number _ hChars => exact absurd (hChars '-' hMem) (by decide)
  | identifier _ hChars => exact absurd (hChars '-' hMem) (by decide)

theorem uncut_lexeme? {before : Option Char} {t : Text} {l : Lexeme}
    (h : lexeme? before t = some l) : Uncut l.text.getLast? l.rest := by
  intro hLast hGreater
  have hMinus := (lexeme?_spells h).eq_minus hLast
  have hAppend := lexeme?_append h
  rw [hMinus] at hAppend
  rw [← hAppend] at h
  -- the sign and the character behind it would have been read as an arrow
  have hArrow : lexeme? before ('-' :: l.rest) = some ⟨.arrow, ['-', '>'], l.rest.tail⟩ := by
    rw [lexeme?, if_neg (by decide), if_pos ⟨rfl, hGreater⟩]
  have hText := congrArg Lexeme.text (Option.some.inj (h.symm.trans hArrow))
  rw [hMinus] at hText
  cases hText

theorem extract_append_extract (t : Text) {a b c : Nat} (hab : a ≤ b) (hbc : b ≤ c) :
    t.extract a b ++ t.extract b c = t.extract a c := by
  have hLength : c - a = (b - a) + (c - b) := by omega
  have hIndex : a + (b - a) = b := by omega
  simp only [List.extract]
  rw [hLength, List.take_add, List.drop_drop, hIndex]

/-- The tokens of a text from the index `n` on, where the last one in front of it stops at
`start`. -/
def tokensAt (t : Text) (start n : Nat) : List Token :=
  Cursor.tokensIn (t.take n).getLast? n ((t.extract start n).filter isBlank) (t.drop n)

/-- A place to which a scan can come: no token since `start`, and not inside an arrow. -/
structure Standing (t : Text) (start n : Nat) : Prop where
  behind : start ≤ n
  inside : n ≤ t.length
  gap : Gap t start n
  uncut : Uncut (t.take n).getLast? (t.drop n)

section Step

variable {t : Text} {start n : Nat} {c : Char} {rest : Text}

theorem getElem?_of_drop (hDrop : t.drop n = c :: rest) : t[n]? = some c := by
  rw [← List.head?_drop, hDrop]
  rfl

theorem take_succ_of_drop (hDrop : t.drop n = c :: rest) : t.take (n + 1) = t.take n ++ [c] := by
  rw [List.take_add_one, getElem?_of_drop hDrop]
  rfl

theorem drop_succ_of_drop (hDrop : t.drop n = c :: rest) : t.drop (n + 1) = rest := by
  rw [← List.drop_drop, hDrop]
  rfl

/-- A character that is skipped makes the gap longer. -/
theorem Standing.skip (h : Standing t start n) (hDrop : t.drop n = c :: rest)
    (hSkipped : isBlank c ∨ isDropped (t.take n).getLast? c) : Standing t start (n + 1) := by
  have hLength := congrArg List.length hDrop
  rw [List.length_drop, List.length_cons] at hLength
  refine ⟨Nat.le_succ_of_le h.behind, by omega, h.gap.succ (getElem?_of_drop hDrop) hSkipped, ?_⟩
  rw [take_succ_of_drop hDrop, List.getLast?_concat]
  intro hMinus
  cases hMinus
  rcases hSkipped with hBlank | hDropped
  · cases hBlank
  · cases hDropped

theorem tokensAt_blank (hStart : start ≤ n) (hDrop : t.drop n = c :: rest) (hBlank : isBlank c) :
    tokensAt t start n = tokensAt t start (n + 1) := by
  rw [tokensAt, hDrop, Cursor.tokensIn_blank hBlank, tokensAt, take_succ_of_drop hDrop,
    List.getLast?_concat, drop_succ_of_drop hDrop,
    ← extract_append_extract t hStart (Nat.le_succ n)]
  simp [hDrop, hBlank]

theorem tokensAt_dropped (hStart : start ≤ n) (hDrop : t.drop n = c :: rest)
    (hBlank : isBlank c = false) (hNone : lexeme? (t.take n).getLast? (c :: rest) = none) :
    tokensAt t start n = tokensAt t start (n + 1) := by
  rw [tokensAt, hDrop, Cursor.tokensIn_dropped hBlank hNone, tokensAt, take_succ_of_drop hDrop,
    List.getLast?_concat, drop_succ_of_drop hDrop,
    ← extract_append_extract t hStart (Nat.le_succ n)]
  simp [hDrop, hBlank]

section Lexeme

variable {l : Lexeme} (h : lexeme? (t.take n).getLast? (t.drop n) = some l)

include h

theorem take_drop_of_lexeme? : (t.drop n).take l.text.length = l.text := by
  rw [← lexeme?_append h, List.take_left]

theorem drop_of_lexeme? : t.drop (n + l.text.length) = l.rest := by
  rw [← List.drop_drop, ← lexeme?_append h, List.drop_left]

theorem getLast?_take_of_lexeme? : (t.take (n + l.text.length)).getLast? = l.text.getLast? := by
  rw [List.take_add, take_drop_of_lexeme? h,
    List.getLast?_append_of_ne_nil _ (lexeme?_text_ne_nil h)]

theorem tokensAt_lexeme (start : Nat) :
    tokensAt t start n = ⟨l.kind, l.text, n, (t.extract start n).filter isBlank⟩ ::
      tokensAt t (n + l.text.length) (n + l.text.length) := by
  rw [tokensAt, Cursor.tokensIn_lexeme h, tokensAt, getLast?_take_of_lexeme? h, drop_of_lexeme? h]
  simp

end Lexeme

/-- A lexeme becomes a token in its place, and the scan goes on behind it. -/
theorem Standing.token (h : Standing t start n) {l : Lexeme}
    (hLexeme : lexeme? (t.take n).getLast? (t.drop n) = some l) :
    ∃ token, Placed t start token ∧ n < token.stop ∧ Standing t token.stop token.stop ∧
      tokensAt t start n = token :: tokensAt t token.stop token.stop := by
  have hBound : n + l.text.length ≤ t.length := by
    have hInside := h.inside
    have hLength := congrArg List.length (lexeme?_append hLexeme)
    rw [List.length_append, List.length_drop] at hLength
    omega
  refine ⟨⟨l.kind, l.text, n, (t.extract start n).filter isBlank⟩, ⟨rfl, h.behind, ?_, rfl, h.gap⟩,
    ?_, ⟨Nat.le_refl _, hBound, gap_refl t _, ?_⟩, tokensAt_lexeme hLexeme start⟩
  · simp only [Token.start, Token.stop, List.extract, Int.toNat_natCast, Nat.add_sub_cancel_left]
    exact take_drop_of_lexeme? hLexeme
  · exact Nat.lt_add_of_pos_right (List.length_pos_iff.mpr (lexeme?_text_ne_nil hLexeme))
  · simp only [Token.start, Token.stop, Int.toNat_natCast, getLast?_take_of_lexeme? hLexeme,
      drop_of_lexeme? hLexeme]
    exact uncut_lexeme? hLexeme

/-- What a scan does at a place: it is at the end, skips a character or finds a token. -/
theorem Standing.cases (h : Standing t start n) :
    (n = t.length ∧ tokensAt t start n = []) ∨
      (Standing t start (n + 1) ∧ tokensAt t start n = tokensAt t start (n + 1)) ∨
      ∃ token, Placed t start token ∧ n < token.stop ∧ Standing t token.stop token.stop ∧
        tokensAt t start n = token :: tokensAt t token.stop token.stop := by
  cases hDrop : t.drop n with
  | nil =>
    have hLength := List.drop_eq_nil_iff.mp hDrop
    refine Or.inl ⟨Nat.le_antisymm h.inside hLength, ?_⟩
    rw [tokensAt, hDrop]
    rfl
  | cons c rest =>
    by_cases hBlank : isBlank c
    · exact Or.inr (Or.inl ⟨h.skip hDrop (Or.inl hBlank), tokensAt_blank h.behind hDrop hBlank⟩)
    rw [Bool.not_eq_true] at hBlank
    cases hLexeme : lexeme? (t.take n).getLast? (c :: rest) with
    | none =>
      have hUncut := h.uncut
      rw [hDrop] at hUncut
      have hDropped := isDropped_of_lexeme? hBlank
        (fun hMinus hGreater => hUncut hMinus (congrArg some hGreater)) hLexeme
      exact Or.inr (Or.inl ⟨h.skip hDrop (Or.inr hDropped),
        tokensAt_dropped h.behind hDrop hBlank hLexeme⟩)
    | some l => exact Or.inr (Or.inr (h.token (hDrop ▸ hLexeme)))

theorem Standing.covers (h : Standing t start n) : Covers start t (tokensAt t start n) := by
  -- every step leaves less of the text to be scanned
  generalize hLeft : t.length - n = left
  induction left using Nat.strongRecOn generalizing start n with
  | ind left ih =>
    rcases h.cases with ⟨hEnd, hTokens⟩ | ⟨hNext, hTokens⟩ | ⟨token, hToken, hLess, hNext, hTokens⟩
    · subst hEnd
      rw [hTokens]
      exact ⟨by simp, h.gap⟩
    · rw [hTokens]
      have := hNext.inside
      exact ih _ (by omega) hNext rfl
    · rw [hTokens]
      have := hNext.inside
      exact hToken.cons (ih _ (by omega) hNext rfl)

end Step

theorem standing_zero (t : Text) : Standing t 0 0 :=
  ⟨Nat.le_refl 0, Nat.zero_le _, gap_refl t 0, by simp [Uncut]⟩

theorem tokenize_eq_tokensAt (t : Text) : tokenize t = tokensAt t 0 0 := by
  rw [tokenize, Cursor.tokens_eq_tokensIn]
  rfl

/-! ## The content of tokens that cover a text -/

theorem recognised_append (before : Option Char) (a b : Text) :
    recognised before (a ++ b) = recognised before a ++ recognised (a.getLast?.or before) b := by
  induction a generalizing before with
  | nil => rfl
  | cons c a ih =>
    have hLast : (c :: a).getLast?.or before = a.getLast?.or (some c) := by
      rw [List.getLast?_cons]
      cases a.getLast? <;> rfl
    rw [hLast, List.cons_append, recognised, recognised, ih]
    split <;> rfl

/-- Of a gap only the blanks are recognised. -/
theorem Gap.recognised {t gap rest : Text} {start : Nat} (h : Gap t start (start + gap.length))
    (hDrop : t.drop start = gap ++ rest) :
    recognised (t.take start).getLast? gap = gap.filter isBlank := by
  induction gap generalizing start with
  | nil => rfl
  | cons c gap ih =>
    obtain ⟨d, hd, hSkipped⟩ := h start (Nat.le_refl _) (by simp)
    obtain rfl : c = d := Option.some.inj ((getElem?_of_drop hDrop).symm.trans hd)
    have hLater : Gap t (start + 1) (start + 1 + gap.length) := by
      rw [Nat.add_assoc, Nat.add_comm 1]
      exact h.later
    have hRest := ih hLater (drop_succ_of_drop hDrop)
    rw [take_succ_of_drop hDrop, List.getLast?_concat] at hRest
    rw [Token.recognised, hRest]
    by_cases hBlank : isBlank c
    · rw [if_neg (by simp [isDropped, hBlank]), List.filter_cons_of_pos hBlank]
    · rw [if_pos (hSkipped.resolve_left hBlank), List.filter_cons_of_neg hBlank]

theorem recognised_of_isSolid {before : Option Char} {t : Text} (h : ∀ c ∈ t, IsSolid c) :
    recognised before t = t := by
  induction t generalizing before with
  | nil => rfl
  | cons c t ih =>
    have hFirst := @not_isDropped_of_isSolid before c (h c List.mem_cons_self)
    rw [recognised, hFirst, ih fun d hd => h d (List.mem_cons_of_mem _ hd)]
    rfl

/-- The text of a token is recognised, an arrow as a whole. -/
theorem Spells.recognised {kind : Kind} {t : Text} (h : Spells kind t) (before : Option Char) :
    recognised before t = t := by
  cases h with
  | newline => exact recognised_of_isSolid (by simp [IsSolid])
  | arrow => rfl
  | operator hOperator => exact recognised_of_isSolid (by simp [IsSolid, hOperator])
  | multiply => rfl
  | number _ hChars =>
    refine recognised_of_isSolid fun c hc => ?_
    rcases hChars c hc with hDigit | rfl
    · exact Or.inr (Or.inr (isNameChar_of_isDigit hDigit))
    · exact Or.inr (Or.inl (by decide))
  | identifier _ hChars => exact recognised_of_isSolid fun c hc => Or.inr (Or.inr (hChars c hc))

theorem rdropWhile_append {p : Char → Bool} {a : Text} (ha : a.rdropWhile p = a) (b : Text) :
    (a ++ b).rdropWhile p = a ++ b.rdropWhile p := by
  induction b using List.reverseRecOn with
  | nil => rw [List.append_nil, List.rdropWhile_nil, List.append_nil, ha]
  | append_singleton b c ih =>
    rw [← List.append_assoc, List.rdropWhile_concat, List.rdropWhile_concat, ih]
    split
    · rfl
    · rw [List.append_assoc]

section Content

variable {t : Text} {start : Nat} {token : Token}

theorem Placed.drop_text (h : Placed t start token) :
    t.drop token.start = token.text ++ t.drop token.stop := by
  have hText := h.text
  rw [List.extract, stop, Nat.add_sub_cancel_left] at hText
  have hSplit := List.take_append_drop token.text.length (t.drop token.start)
  rw [hText, List.drop_drop] at hSplit
  exact hSplit.symm

theorem Placed.drop_gap (h : Placed t start token) :
    t.drop start = t.extract start token.start ++ t.drop token.start := by
  have hIndex : start + (token.start - start) = token.start := Nat.add_sub_cancel' h.behind
  have hSplit := List.take_append_drop (token.start - start) (t.drop start)
  rw [List.drop_drop, hIndex] at hSplit
  exact hSplit.symm

/-- Behind a token stands its last character. -/
theorem Placed.getLast?_take (h : Placed t start token) (hText : token.text ≠ []) :
    (t.take token.stop).getLast? = token.text.getLast? := by
  have hExtract := h.text
  rw [List.extract, stop, Nat.add_sub_cancel_left] at hExtract
  rw [stop, List.take_add, hExtract, List.getLast?_append_of_ne_nil _ hText]

theorem Placed.recognised_gap (h : Placed t start token) (hInside : token.start ≤ t.length) :
    recognised (t.take start).getLast? (t.extract start token.start) = token.space := by
  have hLength : start + (t.extract start token.start).length = token.start := by
    have := h.behind
    rw [List.length_take, List.length_drop]
    omega
  rw [h.space]
  exact Gap.recognised (hLength.symm ▸ h.gap) h.drop_gap

theorem Lexical.rdropWhile_content (h : token.Lexical) :
    (token.space ++ token.text).rdropWhile isBlank = token.space ++ token.text := by
  have hText := h.spells.text_ne_nil
  rw [List.rdropWhile_eq_self_iff]
  intro hSome
  rw [List.getLast_append_of_ne_nil _ hText, h.spells.not_isBlank _ (List.getLast_mem hText)]
  decide

theorem content_of_covers {tokens : List Token} (hLexical : AllLexical tokens)
    (h : Covers start t tokens) :
    content tokens = (recognised (t.take start).getLast? (t.drop start)).rdropWhile isBlank := by
  induction tokens generalizing start with
  | nil =>
    have hGap : Gap t start (start + (t.drop start).length) := by
      intro index hFirst hLast
      rw [List.length_drop] at hLast
      exact h.rest index hFirst (by omega)
    rw [hGap.recognised (List.append_nil _).symm, List.rdropWhile_eq_nil_iff.mpr]
    · rfl
    · exact fun c hc => (List.mem_filter.mp hc).2
  | cons token tokens ih =>
    have hSpells := hLexical.first.spells
    have hPlaced := h.first
    have hInside : token.start ≤ t.length := by
      have hLength := congrArg List.length hPlaced.drop_text
      have hPositive := List.length_pos_iff.mpr hSpells.text_ne_nil
      rw [List.length_append, List.length_drop] at hLength
      omega
    have hLast : token.text.getLast? = (t.take token.stop).getLast? :=
      (hPlaced.getLast?_take hSpells.text_ne_nil).symm
    have hSome (before : Option Char) : token.text.getLast?.or before = token.text.getLast? := by
      rw [List.getLast?_eq_some_getLast hSpells.text_ne_nil]
      rfl
    rw [hPlaced.drop_gap, recognised_append, hPlaced.recognised_gap hInside, hPlaced.drop_text,
      recognised_append, hSpells.recognised, hSome, hLast, ← List.append_assoc,
      rdropWhile_append hLexical.first.rdropWhile_content, ← ih hLexical.rest h.tail]
    rfl

end Content

/-! ## Scanning content again -/

theorem recognised_of_isBlank {t : Text} (h : ∀ c ∈ t, isBlank c) (before : Option Char) :
    recognised before t = t := by
  induction t generalizing before with
  | nil => rfl
  | cons c t ih =>
    obtain ⟨hBlank, hRest⟩ := List.forall_mem_cons.mp h
    rw [recognised, if_neg (by simp [isDropped, hBlank]), ih hRest]

theorem recognised_content {tokens : List Token} (h : AllLexical tokens) (before : Option Char) :
    recognised before (content tokens) = content tokens := by
  induction tokens generalizing before with
  | nil => rfl
  | cons token rest ih =>
    show recognised before (token.space ++ token.text ++ content rest) = _
    rw [recognised_append, recognised_append, recognised_of_isBlank h.first.space,
      h.first.spells.recognised, ih h.rest]
    rfl

theorem rdropWhile_content {tokens : List Token} (h : AllLexical tokens) :
    (content tokens).rdropWhile isBlank = content tokens := by
  induction tokens with
  | nil => rfl
  | cons token rest ih =>
    show (token.space ++ token.text ++ content rest).rdropWhile isBlank = _
    rw [rdropWhile_append h.first.rdropWhile_content, ih h.rest]
    rfl

/-- No character of some content is dropped, whatever tokens it is cut into. -/
theorem content_tokenize_content {tokens : List Token} (h : AllLexical tokens) :
    content (tokenize (content tokens)) = content tokens := by
  have hCovers : Covers 0 (content tokens) (tokenize (content tokens)) := by
    rw [tokenize_eq_tokensAt]
    exact (standing_zero _).covers
  rw [content_of_covers (lexical_tokenize _) hCovers, List.drop_zero, recognised_content h,
    rdropWhile_content h]

/-- The tokens of a text stand in it where their offsets say, one behind another, each with the
blanks in front of it; what no token covers is a blank or belongs to no token. So the content of the
tokens is the text without such characters and without the blanks at its end. -/
theorem tokenize_covers (t : Text) :
    Covers 0 t (tokenize t) ∧ content (tokenize t) = (recognised none t).rdropWhile isBlank := by
  have hCovers : Covers 0 t (tokenize t) := by
    rw [tokenize_eq_tokensAt]
    exact (standing_zero t).covers
  exact ⟨hCovers, content_of_covers (lexical_tokenize t) hCovers⟩

end ProseMath.Token
