import Mathlib.Tactic.Common
import ProseMath.Proofs.Token.Spelling

/-!
# Scanning a text that was put together from tokens

`Cursor.tokensIn` gives the scan as a recursion on the text, one equation for each thing that can
happen at a character. With it a text is followed through the scan that consists of token texts
without blanks (`Solid`), up to a character at which every token ends (`Delimited`).

* `solid_stringify`: token texts put together are solid.
* `exists_lexeme`: a solid text in front of a delimiter starts with a lexeme that ends inside the
  text, and what is left of the text is solid.
-/

namespace ProseMath

namespace Cursor

/-! ## The scan as a recursion on the text -/

/-- The tokens of a text that stands behind `offset` characters and the blanks `space`. -/
def tokensIn (before : Option Char) (offset : Nat) (space t : Text) : List Token :=
  match nextIn before offset space t with
  | none => []
  | some (token, after) => token :: after.tokens

theorem tokens_eq_tokensIn (cursor : Cursor) :
    cursor.tokens = tokensIn cursor.before cursor.offset [] cursor.rest := by
  rw [tokens]
  unfold tokensIn next?
  split
  · rename_i h
    rw [h]
  · rename_i h
    rw [h]

section Equations

variable {before : Option Char} {offset : Nat} {space t : Text} {c : Char}

theorem tokensIn_blank (h : Token.isBlank c) :
    tokensIn before offset space (c :: t) = tokensIn (some c) (offset + 1) (space ++ [c]) t := by
  unfold tokensIn
  rw [nextIn, if_pos h]

theorem tokensIn_dropped (hBlank : Token.isBlank c = false)
    (h : Token.lexeme? before (c :: t) = none) :
    tokensIn before offset space (c :: t) = tokensIn (some c) (offset + 1) space t := by
  unfold tokensIn
  rw [nextIn, if_neg (by simp [hBlank]), h]

theorem tokensIn_lexeme {l : Token.Lexeme} (h : Token.lexeme? before t = some l) :
    tokensIn before offset space t = ⟨l.kind, l.text, offset, space⟩ ::
      tokensIn l.text.getLast? (offset + l.text.length) [] l.rest := by
  rw [← tokens_eq_tokensIn ⟨l.text.getLast?, offset + l.text.length, l.rest⟩]
  cases t with
  | nil => cases h
  | cons c t =>
    unfold tokensIn
    rw [nextIn, if_neg (by simp [Token.not_isBlank_of_lexeme? h]), h]

end Equations

end Cursor

namespace Token

/-! ## Solid texts -/

/-- A character that always starts a token. -/
def IsSolid (c : Char) : Prop := c = '\n' ∨ (operator? c).isSome ∨ isNameChar c

/-- A text of which a scan drops nothing. -/
inductive Solid : Text → Prop
  | nil : Solid []
  | arrow {t : Text} (h : Solid t) : Solid ('-' :: '>' :: t)
  | char {c : Char} {t : Text} (hChar : IsSolid c) (h : Solid t) : Solid (c :: t)

theorem not_isSolid_greater : ¬ IsSolid '>' := by
  rintro (h | h | h) <;> revert h <;> decide

theorem solid_of_chars {t : Text} (h : ∀ c ∈ t, IsSolid c) : Solid t := by
  induction t with
  | nil => exact .nil
  | cons c t ih =>
    exact .char (h c List.mem_cons_self) (ih fun d hd => h d (List.mem_cons_of_mem _ hd))

theorem Solid.append {a b : Text} (ha : Solid a) (hb : Solid b) : Solid (a ++ b) := by
  induction ha with
  | nil => exact hb
  | arrow _ ih => exact .arrow ih
  | char hChar _ ih => exact .char hChar ih

theorem Spells.solid {kind : Kind} {t : Text} (h : Spells kind t) : Solid t := by
  cases h with
  | newline => exact solid_of_chars (by simp [IsSolid])
  | arrow => exact .arrow .nil
  | operator hOperator => exact solid_of_chars (by simp [IsSolid, hOperator])
  | multiply => exact .char (Or.inr (Or.inr (by decide))) .nil
  | number _ hChars =>
    refine solid_of_chars fun c hc => ?_
    rcases hChars c hc with hDigit | rfl
    · exact Or.inr (Or.inr (isNameChar_of_isDigit hDigit))
    · exact Or.inr (Or.inl (by decide))
  | identifier _ hChars => exact solid_of_chars fun c hc => Or.inr (Or.inr (hChars c hc))

theorem solid_stringify {tokens : List Token} (h : AllLexical tokens) :
    Solid (stringify tokens) := by
  induction tokens with
  | nil => exact .nil
  | cons token tokens ih => exact h.first.spells.solid.append (ih h.rest)

theorem Solid.tail {c : Char} {t : Text} (h : Solid (c :: t)) (hMinus : c ≠ '-') : Solid t := by
  cases h with
  | arrow _ => exact absurd rfl hMinus
  | char _ h => exact h

/-- Only an arrow can be cut in two, at its minus sign. -/
theorem Solid.of_append {a b : Text} (h : Solid (a ++ b)) (hMinus : '-' ∉ a) : Solid b := by
  induction a with
  | nil => exact h
  | cons c a ih =>
    have hFirst : c ≠ '-' := by
      rintro rfl
      exact hMinus List.mem_cons_self
    exact ih (h.tail hFirst) fun hMem => hMinus (List.mem_cons_of_mem _ hMem)

theorem Solid.head_ne_greater {t : Text} (h : Solid t) : t.head? ≠ some '>' := by
  cases h with
  | nil => simp
  | arrow _ => simp
  | char hChar _ =>
    rintro hHead
    cases hHead
    exact not_isSolid_greater hChar

/-! ## Lexemes of solid texts -/

/-- At the start of the text every token ends. -/
def Delimited (t : Text) : Prop := ∀ c ∈ t.head?, c ∈ [' ', ',', ')']

/-- A character that starts a token does so whatever stands around it. -/
theorem exists_lexeme_of_isSolid {c : Char} (h : IsSolid c) (before : Option Char) (t : Text) :
    ∃ l, lexeme? before (c :: t) = some l := by
  rw [lexeme?]
  by_cases hNewline : c = '\n'
  · exact ⟨_, if_pos hNewline⟩
  · rw [if_neg hNewline]
    split
    · exact ⟨_, rfl⟩
    · cases hOperator : operator? c with
      | some kind => exact ⟨_, rfl⟩
      | none =>
        have hName : isNameChar c := by
          rcases h with h | h | h
          · exact absurd h hNewline
          · rw [hOperator] at h
            cases h
          · exact h
        dsimp only
        split
        · exact ⟨_, rfl⟩
        · by_cases hDigit : Text.isDigit c
          · exact ⟨_, if_pos hDigit⟩
          · rw [if_neg hDigit, if_pos]
            · exact ⟨_, rfl⟩
            · simpa [isNameChar, hDigit] using hName

/-- A lexeme does not reach over a delimiter. -/
theorem lexeme?_delimited {before : Option Char} {t v : Text} {l : Lexeme} (hText : t ≠ [])
    (hDelimited : Delimited v) (h : lexeme? before (t ++ v) = some l) :
    ∃ u, l.text ++ u = t ∧ l.rest = u ++ v := by
  have hSpells := lexeme?_spells h
  rcases List.append_eq_append_iff.mp (lexeme?_append h) with ⟨u, rfl, hRest⟩ | ⟨w, hw, hRest⟩
  · exact ⟨u, rfl, hRest⟩
  · cases w with
    | nil => exact ⟨[], by simp [hw], by simp [hRest]⟩
    | cons d w =>
      exfalso
      have hMem : d ∈ l.text := by simp [hw]
      have hd : d ∈ [' ', ',', ')'] := hDelimited d (by rw [hRest]; rfl)
      by_cases hSpace : d = ' '
      · subst hSpace
        cases hSpells.not_isBlank ' ' hMem
      · have hOperators : ∀ c ∈ [' ', ',', ')'], c ≠ ' ' →
            c ≠ '-' ∧ c ≠ '.' ∧ (operator? c).isSome := List.all_iff_forall_prop.mp (by decide)
        obtain ⟨hMinus, hPoint, hSome⟩ := hOperators d hd hSpace
        obtain ⟨kind, hKind⟩ := Option.isSome_iff_exists.mp hSome
        have hSingle := (hSpells.eq_of_mem_operator hKind hMinus hPoint hMem).2
        rw [hw] at hSingle
        have := congrArg List.length hSingle
        simp only [List.length_append, List.length_cons, List.length_nil] at this
        have := List.length_pos_iff.mpr hText
        omega

/-- A minus sign is the first character of its token. -/
theorem Spells.head_of_mem_minus {kind : Kind} {t : Text} (h : Spells kind t) (hMinus : '-' ∈ t) :
    t.head? = some '-' := by
  cases h with
  | newline => simp at hMinus
  | arrow => rfl
  | operator hOperator => rw [← List.mem_singleton.mp hMinus]; rfl
  | multiply => simp at hMinus
  | number _ hChars =>
    rcases hChars '-' hMinus with hDigit | hPoint
    · exact absurd hDigit (by decide)
    · cases hPoint
  | identifier _ hChars => exact absurd (hChars '-' hMinus) (by decide)

theorem exists_lexeme {c : Char} {t v : Text} (hSolid : Solid (c :: t)) (hDelimited : Delimited v)
    (before : Option Char) :
    ∃ l u, lexeme? before (c :: (t ++ v)) = some l ∧ l.text ++ u = c :: t ∧ l.rest = u ++ v ∧
      Solid u := by
  cases hSolid with
  | arrow h => exact ⟨_, _, rfl, rfl, rfl, h⟩
  | char hChar h =>
    by_cases hMinus : c = '-'
    · -- the next character, in the text or behind it, does not make an arrow of it
      subst hMinus
      have hHead : (t ++ v).head? ≠ some '>' := by
        cases t with
        | nil =>
          intro hHead
          have := hDelimited '>' hHead
          simp at this
        | cons d t => exact h.head_ne_greater
      refine ⟨⟨.minus, ['-'], t ++ v⟩, t, ?_, rfl, rfl, h⟩
      rw [lexeme?, if_neg (by decide), if_neg fun hArrow => hHead hArrow.2]
      rfl
    · obtain ⟨l, hl⟩ := exists_lexeme_of_isSolid hChar before (t ++ v)
      obtain ⟨u, hu, hRest⟩ := lexeme?_delimited (t := c :: t) (by simp) hDelimited hl
      refine ⟨l, u, hl, hu, hRest, ?_⟩
      have hText : '-' ∉ l.text := by
        intro hMem
        have hHead := (lexeme?_spells hl).head_of_mem_minus hMem
        have hFirst : (l.text ++ u).head? = some c := by rw [hu]; rfl
        rw [List.head?_append, hHead] at hFirst
        cases hFirst
        exact hMinus rfl
      exact Solid.of_append (hu ▸ .char hChar h) hText

end Token

end ProseMath
