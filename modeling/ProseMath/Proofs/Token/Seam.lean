import Mathlib.Tactic.Common
import ProseMath.Proofs.Text.Trim
import ProseMath.Proofs.Token.Coverage

/-!
# Scanning over the end of a line

The scan looks one character back and one ahead. At a newline it finds the same as at an end of the
text, so the lines of a text are scanned each for itself; a blank at the end of a line is found
only by a letter `x`.

* `lexeme?_append_break`: a lexeme in front of a blank or a newline.
* `tokensAt_append_break`: a scan that comes to a blank or a newline.
* `tokenize_append_newline`: the tokens of a text are those of its lines.
-/

namespace ProseMath

namespace Token

/-! ## Lexemes in front of a break -/

/-- A text at which every token ends: it is empty or starts with a blank or a newline. -/
def Breaks (v : Text) : Prop := ∀ c ∈ v.head?, c = '\n' ∨ isBlank c

theorem Breaks.excludes {v : Text} (h : Breaks v) {c : Char} (hc : c ∈ v.head?) :
    isNameChar c = false ∧ c ≠ '.' ∧ c ≠ '>' := by
  rcases h c hc with rfl | hBlank
  · decide
  · have hCases : (c = ' ' ∨ c = '\t') ∨ c = '\r' := by
      simpa only [isBlank, Bool.or_eq_true, beq_iff_eq] using hBlank
    rcases hCases with (rfl | rfl) | rfl <;> decide

theorem Breaks.not_isDigit {v : Text} (h : Breaks v) {c : Char} (hc : c ∈ v.head?) :
    Text.isDigit c = false := by
  have hName := (h.excludes hc).1
  rw [isNameChar, Bool.or_eq_false_iff] at hName
  exact hName.2

/-- A lexeme of a text when more is put behind the text. -/
def Lexeme.extend (l : Lexeme) (v : Text) : Lexeme := { l with rest := l.rest ++ v }

section Number

variable {t rest v : Text}

theorem number_point (h : t.dropWhile Text.isDigit = '.' :: rest) :
    number t = if rest.head?.any Text.isDigit then
        ⟨.number, t.takeWhile Text.isDigit ++ '.' :: rest.takeWhile Text.isDigit,
          rest.dropWhile Text.isDigit⟩
      else ⟨.number, t.takeWhile Text.isDigit, '.' :: rest⟩ := by
  rw [number, h]
  rfl

theorem number_whole (h : (t.dropWhile Text.isDigit).head? ≠ some '.') :
    number t = ⟨.number, t.takeWhile Text.isDigit, t.dropWhile Text.isDigit⟩ := by
  rw [number]
  split
  · rename_i hPoint
    rw [hPoint] at h
    exact absurd rfl h
  · rfl

theorem number_append_break (hBreaks : Breaks v) (t : Text) :
    number (t ++ v) = (number t).extend v := by
  have hDigit : ∀ c ∈ v.head?, Text.isDigit c = false := fun c hc => hBreaks.not_isDigit hc
  have hTake := Text.takeWhile_append_stop hDigit t
  have hDrop := Text.dropWhile_append_stop hDigit t
  by_cases hPoint : (t.dropWhile Text.isDigit).head? = some '.'
  · obtain ⟨rest, hRest⟩ := List.head?_eq_some_iff.mp hPoint
    have hHead : (rest ++ v).head?.any Text.isDigit = rest.head?.any Text.isDigit := by
      cases rest with
      | nil => cases v with
        | nil => rfl
        | cons c v => exact hDigit c rfl
      | cons c rest => rfl
    rw [hRest, List.cons_append] at hDrop
    rw [number_point hRest, number_point hDrop, hTake, hHead, Text.takeWhile_append_stop hDigit,
      Text.dropWhile_append_stop hDigit]
    split <;> rfl
  · rw [number_whole hPoint, number_whole, hTake, hDrop]
    · rfl
    · rw [hDrop]
      cases hRest : t.dropWhile Text.isDigit with
      | nil => exact fun h => (hBreaks.excludes h).2.1 rfl
      | cons c rest =>
        rw [hRest] at hPoint
        exact hPoint

end Number

/-- Looking ahead over the end of a text does not find a name there. -/
theorem isTimes_break {before : Option Char} {v : Text} (hBreaks : Breaks v)
    (hSpace : v.head? ≠ some ' ') : isTimes before v.head? = isTimes before none := by
  cases hHead : v.head? with
  | none => rfl
  | some c =>
    have hName := (hBreaks.excludes hHead).1
    rw [isNameChar, Bool.or_eq_false_iff] at hName
    have hNot : c ≠ ' ' := by
      rintro rfl
      exact hSpace hHead
    simp [isTimes, hName.1, hNot]

theorem lexeme?_append_break {before : Option Char} {a v : Text} (hNonempty : a ≠ [])
    (hBreaks : Breaks v) (hTimes : a = ['x'] → v.head? ≠ some ' ') :
    lexeme? before (a ++ v) = (lexeme? before a).map (·.extend v) := by
  cases a with
  | nil => exact absurd rfl hNonempty
  | cons c a =>
    have hArrow : (a ++ v).head? = some '>' ↔ a.head? = some '>' := by
      cases a with
      | nil =>
        refine ⟨fun h => absurd rfl (hBreaks.excludes h).2.2, fun h => by cases h⟩
      | cons d a => exact Iff.rfl
    have hSign : c = 'x' → isTimes before (a ++ v).head? = isTimes before a.head? := by
      rintro rfl
      cases a with
      | nil => exact isTimes_break hBreaks (hTimes rfl)
      | cons d a => rfl
    have hName : ∀ c ∈ v.head?, isNameChar c = false := fun c hc => (hBreaks.excludes hc).1
    have hTake := Text.takeWhile_append_stop hName (c :: a)
    have hDrop := Text.dropWhile_append_stop hName (c :: a)
    have hNumber := number_append_break hBreaks (c :: a)
    rw [List.cons_append] at hTake hDrop hNumber ⊢
    rw [lexeme?, lexeme?]
    by_cases hNewline : c = '\n'
    · rw [if_pos hNewline, if_pos hNewline]
      rfl
    rw [if_neg hNewline, if_neg hNewline]
    by_cases hPair : c = '-' ∧ a.head? = some '>'
    · rw [if_pos ⟨hPair.1, hArrow.mpr hPair.2⟩, if_pos hPair, List.tail_append_of_ne_nil]
      · rfl
      · rintro rfl
        cases hPair.2
    rw [if_neg fun h => hPair ⟨h.1, hArrow.mp h.2⟩, if_neg hPair]
    cases operator? c with
    | some kind => rfl
    | none =>
      dsimp only
      by_cases hx : c = 'x' ∧ isTimes before a.head?
      · rw [if_pos ⟨hx.1, (hSign hx.1).trans hx.2⟩, if_pos hx]
        rfl
      rw [if_neg fun h => hx ⟨h.1, (hSign h.1).symm.trans h.2⟩, if_neg hx]
      split
      · rw [hNumber]
        rfl
      · split
        · rw [hTake, hDrop]
          rfl
        · rfl

/-- An `x` in front of a break is a token of its own. -/
theorem lexeme?_times (before : Option Char) {v : Text} (hBreaks : Breaks v) :
    lexeme? before ('x' :: v) =
      some ⟨if isTimes before v.head? then .multiply else .identifier, ['x'], v⟩ := by
  have hName : ∀ c ∈ v.head?, isNameChar c = false := fun c hc => (hBreaks.excludes hc).1
  have hTake : ('x' :: v).takeWhile isNameChar = ['x'] := Text.takeWhile_append_stop hName ['x']
  have hDrop : ('x' :: v).dropWhile isNameChar = v := Text.dropWhile_append_stop hName ['x']
  rw [lexeme?, if_neg (by decide), if_neg fun h => absurd h.1 (by decide), hTake, hDrop]
  by_cases hTimes : isTimes before v.head?
  · rw [if_pos hTimes]
    exact if_pos ⟨rfl, hTimes⟩
  · rw [if_neg hTimes]
    exact if_neg fun h => hTimes h.2

/-- A multiplication sign read as a name. -/
def timesAsName (token : Token) : Token :=
  if token.kind = .multiply ∧ token.text = ['x'] then { token with kind := .identifier } else token

/-- What is read at the end of a line is the same in front of a break, an `x` up to its kind. -/
theorem lexeme?_break (before : Option Char) {a v : Text} (hNonempty : a ≠ [])
    (hBreaks : Breaks v) :
    (lexeme? before a = none ∧ lexeme? before (a ++ v) = none) ∨
      ∃ l kind, lexeme? before a = some l ∧
        lexeme? before (a ++ v) = some ⟨kind, l.text, l.rest ++ v⟩ ∧
        (v.head? ≠ some ' ' → kind = l.kind) ∧
        ∀ offset space, timesAsName ⟨kind, l.text, offset, space⟩ =
          timesAsName ⟨l.kind, l.text, offset, space⟩ := by
  by_cases hTimes : a = ['x'] ∧ v.head? = some ' '
  · obtain ⟨rfl, hSpace⟩ := hTimes
    refine Or.inr ⟨_, _, lexeme?_times before (by simp [Breaks]), lexeme?_times before hBreaks,
      fun h => absurd hSpace h, fun offset space => ?_⟩
    split <;> split <;> rfl
  · have hSame : lexeme? before (a ++ v) = (lexeme? before a).map (·.extend v) :=
      lexeme?_append_break hNonempty hBreaks fun hx hSpace => hTimes ⟨hx, hSpace⟩
    cases hLexeme : lexeme? before a with
    | none =>
      rw [hLexeme] at hSame
      exact Or.inl ⟨rfl, hSame⟩
    | some l =>
      rw [hLexeme] at hSame
      exact Or.inr ⟨l, l.kind, rfl, hSame, fun _ => rfl, fun _ _ => rfl⟩

/-- A token that stands some characters further on. -/
def shift (distance : Nat) (token : Token) : Token :=
  { token with offset := token.offset + distance }

theorem shift_shift (near far : Nat) : shift far ∘ shift near = shift (near + far) := by
  funext token
  simp only [Function.comp_apply, shift, Token.mk.injEq, true_and, and_true]
  omega

end Token

namespace Cursor

open Token

/-! ## Scans that differ in where they start -/

theorem tokensIn_shift (distance : Nat) (before : Option Char) (offset : Nat) (space t : Text) :
    tokensIn before (offset + distance) space t =
      (tokensIn before offset space t).map (shift distance) := by
  -- a lexeme may be of any length
  generalize hLength : t.length = n
  induction n using Nat.strongRecOn generalizing before offset space t with
  | ind n ih =>
    cases t with
    | nil => rfl
    | cons c t =>
      rw [List.length_cons] at hLength
      have hNext (space : Text) : tokensIn (some c) (offset + distance + 1) space t =
          (tokensIn (some c) (offset + 1) space t).map (shift distance) := by
        rw [Nat.add_right_comm]
        exact ih t.length (by omega) _ _ _ _ rfl
      by_cases hBlank : isBlank c
      · rw [tokensIn_blank hBlank, tokensIn_blank hBlank, hNext]
      rw [Bool.not_eq_true] at hBlank
      cases hLexeme : lexeme? before (c :: t) with
      | none => rw [tokensIn_dropped hBlank hLexeme, tokensIn_dropped hBlank hLexeme, hNext]
      | some l =>
        have hShorter := lexeme?_rest_length hLexeme
        rw [List.length_cons] at hShorter
        rw [tokensIn_lexeme hLexeme, tokensIn_lexeme hLexeme, List.map_cons, Nat.add_right_comm,
          ih l.rest.length (by omega) _ _ _ _ rfl]
        simp [shift]

/-- Behind a newline the scan goes on as at the start of a text. -/
theorem tokensIn_behind_newline (offset : Nat) (space t : Text) :
    tokensIn (some '\n') offset space t = tokensIn none offset space t := by
  cases t with
  | nil => rfl
  | cons c t =>
    have hLexeme : lexeme? (some '\n') (c :: t) = lexeme? none (c :: t) := by
      have hTimes : isTimes (some '\n') t.head? = isTimes none t.head? := rfl
      rw [lexeme?, lexeme?, hTimes]
    by_cases hBlank : isBlank c
    · rw [tokensIn_blank hBlank, tokensIn_blank hBlank]
    rw [Bool.not_eq_true] at hBlank
    cases hNone : lexeme? none (c :: t) with
    | none => rw [tokensIn_dropped hBlank (hLexeme.trans hNone), tokensIn_dropped hBlank hNone]
    | some l => rw [tokensIn_lexeme (hLexeme.trans hNone), tokensIn_lexeme hNone]

theorem tokensIn_eq_tokenize (offset : Nat) (t : Text) :
    tokensIn (some '\n') offset [] t = (tokenize t).map (shift offset) := by
  have hShift := tokensIn_shift offset none 0 [] t
  rw [Nat.zero_add] at hShift
  rw [tokensIn_behind_newline, hShift, tokenize, tokens_eq_tokensIn]
  rfl

end Cursor

namespace Token

/-! ## Scans over a break -/

/-- The blanks of a text behind its last token. -/
def blanksBehind (start : Nat) (t : Text) (tokens : List Token) : Text :=
  (t.drop (reach start tokens)).filter isBlank

/-- A scan that has come to the index `n` in front of a break, with no token since `start`. -/
theorem tokensAt_append_break (a : Text) {v : Text} (hBreaks : Breaks v) {start n : Nat}
    (hStart : start ≤ n) (hn : n ≤ a.length) :
    ∃ tokens, tokensAt (a ++ v) start n = tokens ++
        Cursor.tokensIn a.getLast? a.length (blanksBehind start a (tokensAt a start n)) v ∧
      (v.head? ≠ some ' ' → tokens = tokensAt a start n) ∧
      tokens.map timesAsName = (tokensAt a start n).map timesAsName := by
  generalize hLeft : a.length - n = left
  induction left using Nat.strongRecOn generalizing start n with
  | ind left ih =>
    have hTake : ((a ++ v).take n).getLast? = (a.take n).getLast? := by
      rw [List.take_append_of_le_length hn]
    have hDrop : (a ++ v).drop n = a.drop n ++ v := List.drop_append_of_le_length hn
    have hExtract : (a ++ v).extract start n = a.extract start n := by
      rw [List.extract, List.drop_append_of_le_length (by omega),
        List.take_append_of_le_length (by rw [List.length_drop]; omega)]
    cases hRest : a.drop n with
    | nil =>
      obtain rfl : n = a.length := Nat.le_antisymm hn (List.drop_eq_nil_iff.mp hRest)
      have hNone : tokensAt a start a.length = [] := by
        rw [tokensAt, hRest]
        rfl
      refine ⟨[], ?_, fun _ => hNone.symm, by rw [hNone]⟩
      rw [tokensAt, hTake, hDrop, hRest, hExtract, hNone, List.take_length, blanksBehind, reach,
        List.extract, List.take_of_length_le (by rw [List.length_drop])]
      rfl
    | cons c rest =>
      have hBoth : (a ++ v).drop n = c :: (rest ++ v) := by rw [hDrop, hRest, List.cons_append]
      have hLength := congrArg List.length hRest
      rw [List.length_drop, List.length_cons] at hLength
      by_cases hBlank : isBlank c
      · rw [tokensAt_blank hStart hRest hBlank, tokensAt_blank hStart hBoth hBlank]
        exact ih _ (by omega) (Nat.le_succ_of_le hStart) (by omega) rfl
      rw [Bool.not_eq_true] at hBlank
      rcases lexeme?_break (a.take n).getLast? (List.cons_ne_nil c rest) hBreaks with
        ⟨hAlone, hBehind⟩ | ⟨l, kind, hAlone, hBehind, hKind, hTimes⟩
      · rw [← hTake] at hBehind
        rw [tokensAt_dropped hStart hRest hBlank hAlone,
          tokensAt_dropped hStart hBoth hBlank hBehind]
        exact ih _ (by omega) (Nat.le_succ_of_le hStart) (by omega) rfl
      · rw [← hRest] at hAlone
        rw [← hTake, ← hRest, ← hDrop] at hBehind
        have hPositive := List.length_pos_iff.mpr (lexeme?_text_ne_nil hAlone)
        have hInside : n + l.text.length ≤ a.length := by
          have hAppend := congrArg List.length (lexeme?_append hAlone)
          rw [List.length_append, List.length_drop] at hAppend
          omega
        obtain ⟨tokens, hTokens, hSame, hMap⟩ :=
          ih (a.length - (n + l.text.length)) (by omega) (Nat.le_refl _) hInside rfl
        rw [tokensAt_lexeme hAlone, tokensAt_lexeme hBehind, hExtract, hTokens]
        refine ⟨⟨kind, l.text, n, (a.extract start n).filter isBlank⟩ :: tokens, ?_, ?_, ?_⟩
        · rw [blanksBehind, blanksBehind, reach_cons]
          rfl
        · intro hSpace
          rw [hKind hSpace, hSame hSpace]
        · rw [List.map_cons, List.map_cons, hMap, hTimes]

theorem tokensIn_newline (before : Option Char) (offset : Nat) (space b : Text) :
    Cursor.tokensIn before offset space ('\n' :: b) =
      ⟨.newline, ['\n'], offset, space⟩ :: (tokenize b).map (shift (offset + 1)) := by
  have hLexeme : lexeme? before ('\n' :: b) = some ⟨.newline, ['\n'], b⟩ := by
    rw [lexeme?, if_pos rfl]
  rw [Cursor.tokensIn_lexeme hLexeme]
  exact congrArg _ (Cursor.tokensIn_eq_tokenize (offset + 1) b)

theorem tokensIn_blanks {ws : Text} (h : ∀ c ∈ ws, isBlank c) (before : Option Char) (offset : Nat)
    (space : Text) : Cursor.tokensIn before offset space ws = [] := by
  induction ws generalizing before offset space with
  | nil => rfl
  | cons c ws ih =>
    rw [Cursor.tokensIn_blank (h c List.mem_cons_self)]
    exact ih (fun d hd => h d (List.mem_cons_of_mem _ hd)) _ _ _

theorem breaks_newline (b : Text) : Breaks ('\n' :: b) := by
  intro c hc
  cases hc
  exact Or.inl rfl

/-- Lines are scanned each for itself. The newline between them keeps the blanks at the end of the
line. -/
theorem tokenize_append_newline (a b : Text) :
    tokenize (a ++ '\n' :: b) = tokenize a ++
      ⟨.newline, ['\n'], a.length, (a.drop (reach 0 (tokenize a))).filter isBlank⟩ ::
        (tokenize b).map (shift (a.length + 1)) := by
  obtain ⟨tokens, hTokens, hSame, _⟩ :=
    tokensAt_append_break a (breaks_newline b) (Nat.le_refl 0) (Nat.zero_le _)
  rw [tokenize_eq_tokensAt, hTokens, hSame (by simp), tokensIn_newline, ← tokenize_eq_tokensAt,
    blanksBehind]

theorem exists_tokenize_newline (a b : Text) :
    ∃ newline, newline.kind = .newline ∧
      tokenize (a ++ '\n' :: b) =
        tokenize a ++ newline :: (tokenize b).map (shift (a.length + 1)) := by
  obtain ⟨tokens, hTokens, hSame, _⟩ :=
    tokensAt_append_break a (breaks_newline b) (Nat.le_refl 0) (Nat.zero_le _)
  rw [hSame (by simp), tokensIn_newline, ← tokenize_eq_tokensAt, ← tokenize_eq_tokensAt] at hTokens
  exact ⟨_, rfl, hTokens⟩

/-- Blanks at the end of a text make no tokens, but an `x` in front of them can be a multiplication
sign. -/
theorem map_tokenize_append_blanks (a : Text) {ws : Text} (h : ∀ c ∈ ws, isBlank c) :
    (tokenize (a ++ ws)).map timesAsName = (tokenize a).map timesAsName := by
  have hBreaks : Breaks ws := fun c hc => Or.inr (h c (List.mem_of_mem_head? hc))
  obtain ⟨tokens, hTokens, _, hMap⟩ :=
    tokensAt_append_break a hBreaks (Nat.le_refl 0) (Nat.zero_le _)
  rw [tokenize_eq_tokensAt, tokenize_eq_tokensAt, hTokens, tokensIn_blanks h, List.append_nil, hMap]

end Token

end ProseMath
