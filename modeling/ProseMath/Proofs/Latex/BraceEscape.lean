import Mathlib.Data.List.Induction
import Mathlib.Tactic.Common
import ProseMath.Latex.Brace

/-!
# Which braces are escaped

The escaping of braces goes through a text once, with a count of the argument braces that are open.
What it does can be said of the places of the text alone: a backslash is put before some of the
braces outside mathematics, and the count is the number of opening braces less that of closing ones
that were left without one. So no beginning of a text closes more of these than it opens.

* `escapeBracesFrom_eq`: the text is written character by character.
* `BraceState.depth_next`, `keptBraces_eq_depth`: one step keeps the count, and so does a run.
* `escapeBraces_inserts`: the braces that get a backslash.
* `BraceState.escapeBracesFrom_eq_every_iff`, `escapeBraces_eq_every_iff`: texts in which every
  brace gets one.
* `BraceState.escapeBracesFrom_eq_self_iff`, `escapeBraces_eq_self_iff`: texts in which none does.
-/

namespace ProseMath.Latex

open Text

/-! ## Backslashes at places of a text -/

/-- A text with a backslash before the characters at some indices. -/
def insertBackslashes (escaped : Nat → Bool) (t : Text) : Text :=
  t.zipIdx.flatMap fun place => if escaped place.2 then ['\\', place.1] else [place.1]

/-- Whether the character at an index stands outside mathematics. -/
def isOutside (t : Text) (index : Nat) : Bool := (t.take index).count '$' % 2 == 0

/-- Whether a text ends with a letter, blanks aside. -/
def endsWithLetter (t : Text) : Bool := (t.reverse.dropWhile (· == ' ')).head?.any isLetter

/-- How many braces of a sort, outside mathematics and without a backslash put before them, are
among the first `n` characters of a text. -/
def keptBraces (t : Text) (escaped : Nat → Bool) (brace : Char) (n : Nat) : Nat :=
  (List.range n).countP fun index => t[index]? == some brace && isOutside t index && !escaped index

/-- The places of a text that get a backslash. -/
structure EscapesBraces (t : Text) (escaped : Nat → Bool) : Prop where
  /-- Nothing else than braces outside mathematics gets one. -/
  braces : ∀ index, escaped index →
    isOutside t index ∧ (t[index]? = some '{' ∨ t[index]? = some '}')
  /-- An opening brace is left without one behind a letter. -/
  opening : ∀ index, t[index]? = some '{' → isOutside t index →
    (escaped index = false ↔ endsWithLetter (t.take index))
  /-- A closing brace is left without one if there is an opening one to be closed. -/
  closing : ∀ index, t[index]? = some '}' → isOutside t index →
    (escaped index = false ↔ keptBraces t escaped '}' index < keptBraces t escaped '{' index)
  /-- No beginning of the text closes more than it opens. -/
  beginnings : ∀ n, keptBraces t escaped '}' n ≤ keptBraces t escaped '{' n

/-! ## Steps -/

/-- Where the escaping of braces stands. -/
structure BraceState where
  /-- Whether it stands inside mathematics. -/
  math : Bool
  /-- How many argument braces are open. -/
  depth : Nat
  /-- The last character that is no blank. -/
  last : Option Char

namespace BraceState

/-- Whether a character gets a backslash. -/
def escapes (s : BraceState) (c : Char) : Bool :=
  !s.math && (c == '{' && !s.last.any isLetter || c == '}' && s.depth == 0)

/-- Whether a character is a brace outside mathematics that gets no backslash. -/
def keeps (s : BraceState) (brace c : Char) : Bool := c == brace && !s.math && !s.escapes c

/-- The state behind a character. -/
def next (s : BraceState) (c : Char) : BraceState where
  math := s.math != (c == '$')
  depth := if s.keeps '{' c then s.depth + 1 else if s.keeps '}' c then s.depth - 1 else s.depth
  last := if c = ' ' then s.last else some c

/-- The state behind a text. -/
def after (t : Text) : BraceState := t.foldl next ⟨false, 0, none⟩

theorem after_concat (t : Text) (c : Char) : after (t ++ [c]) = (after t).next c :=
  List.foldl_append

theorem math_after (t : Text) : (after t).math = (t.count '$' % 2 == 1) := by
  induction t using List.reverseRecOn with
  | nil => rfl
  | append_singleton t c ih =>
    rw [after_concat, next, ih, List.count_append, List.count_singleton]
    by_cases hc : c = '$'
    · rw [hc]
      rcases Nat.mod_two_eq_zero_or_one (t.count '$') with h | h
      · simp [h, Nat.add_mod]
      · simp [h, Nat.add_mod]
    · simp [beq_false_of_ne hc]

theorem last_after (t : Text) : (after t).last = (t.reverse.dropWhile (· == ' ')).head? := by
  induction t using List.reverseRecOn with
  | nil => rfl
  | append_singleton t c ih =>
    rw [after_concat, next, ih, List.reverse_append, List.reverse_singleton, List.singleton_append,
      List.dropWhile_cons]
    by_cases hc : c = ' ' <;> simp [hc]

/-- The count goes up at an opening brace that is left as it is, and down at a closing one. -/
theorem depth_next (s : BraceState) (c : Char) :
    (s.next c).depth + (if s.keeps '}' c then 1 else 0) =
      s.depth + (if s.keeps '{' c then 1 else 0) := by
  by_cases hOpen : s.keeps '{' c
  · have hClose : s.keeps '}' c = false := by
      simp only [keeps, Bool.and_eq_true, beq_iff_eq] at hOpen
      simp [keeps, hOpen.1.1]
    simp [next, hOpen, hClose]
  · by_cases hClose : s.keeps '}' c
    · have hDepth : s.depth ≠ 0 := by
        intro hZero
        simp only [keeps, escapes, Bool.and_eq_true, beq_iff_eq] at hClose
        simp [hClose.1.1, hZero, hClose.1.2] at hClose
      simp only [next, hOpen, hClose, if_true, Bool.false_eq_true, if_false]
      omega
    · simp [next, hOpen, hClose]

/-- One step of the escaping. -/
theorem escapeBracesFrom_cons (s : BraceState) (c : Char) (t : Text) :
    escapeBracesFrom s.math s.depth s.last (c :: t) =
      (if s.escapes c then ['\\', c] else [c]) ++
        escapeBracesFrom (s.next c).math (s.next c).depth (s.next c).last t := by
  obtain ⟨math, depth, last⟩ := s
  rw [escapeBracesFrom.eq_def]
  dsimp only
  by_cases hDollar : c = '$'
  · simp [escapes, next, keeps, hDollar]
  cases math with
  | true => simp [escapes, next, keeps, hDollar, beq_false_of_ne hDollar]
  | false =>
    by_cases hOpen : c = '{'
    · cases hLetter : last.any isLetter with
      | true => simp [escapes, next, keeps, hOpen, hLetter]
      | false => simp [escapes, next, keeps, hOpen, hLetter]
    by_cases hClose : c = '}'
    · cases depth with
      | zero => simp [escapes, next, keeps, hClose]
      | succ depth => simp [escapes, next, keeps, hClose]
    · simp [escapes, next, keeps, hOpen, hClose, hDollar, beq_false_of_ne hDollar]

theorem escapeBracesFrom_append (s : BraceState) (a b : Text) :
    escapeBracesFrom s.math s.depth s.last (a ++ b) =
      escapeBracesFrom s.math s.depth s.last a ++
        escapeBracesFrom (a.foldl next s).math (a.foldl next s).depth (a.foldl next s).last b := by
  induction a generalizing s with
  | nil => rfl
  | cons c a ih =>
    rw [List.cons_append, escapeBracesFrom_cons, ih, escapeBracesFrom_cons, List.append_assoc,
      List.foldl_cons]

end BraceState

open BraceState

theorem escapeBraces_append (a b : Text) :
    escapeBraces (a ++ b) = escapeBraces a ++
      escapeBracesFrom (after a).math (after a).depth (after a).last b :=
  escapeBracesFrom_append (after []) a b

/-! ## Runs -/

/-- The braces of a text that get a backslash, by the state in front of them. -/
def escapedAt (t : Text) (index : Nat) : Bool := t[index]?.any (after (t.take index)).escapes

theorem escapedAt_append (before : Text) (c : Char) (t : Text) :
    escapedAt (before ++ c :: t) before.length = (after before).escapes c := by
  simp [escapedAt]

theorem escapeBracesFrom_eq (before t : Text) :
    escapeBracesFrom (after before).math (after before).depth (after before).last t =
      (t.zipIdx before.length).flatMap fun place =>
        if escapedAt (before ++ t) place.2 then ['\\', place.1] else [place.1] := by
  induction t generalizing before with
  | nil => rfl
  | cons c t ih =>
    have hRest := ih (before ++ [c])
    rw [after_concat, List.append_assoc, List.singleton_append, List.length_append,
      List.length_singleton] at hRest
    rw [escapeBracesFrom_cons, hRest, List.zipIdx_cons, List.flatMap_cons, escapedAt_append]

theorem escapeBraces_eq_insertBackslashes (t : Text) :
    escapeBraces t = insertBackslashes (escapedAt t) t :=
  escapeBracesFrom_eq [] t

section Places

variable {t : Text} {index : Nat}

theorem isOutside_eq (t : Text) (index : Nat) :
    isOutside t index = !(after (t.take index)).math := by
  rw [isOutside, math_after]
  rcases Nat.mod_two_eq_zero_or_one ((t.take index).count '$') with h | h <;> rw [h] <;> rfl

theorem escapedAt_of_getElem? {c : Char} (h : t[index]? = some c) :
    escapedAt t index = (after (t.take index)).escapes c := by
  rw [escapedAt, h]
  rfl

theorem after_take_succ {c : Char} (h : t[index]? = some c) :
    after (t.take (index + 1)) = (after (t.take index)).next c := by
  rw [List.take_add_one, h]
  exact after_concat _ c

theorem keptBraces_succ {c : Char} (h : t[index]? = some c) (brace : Char) :
    keptBraces t (escapedAt t) brace (index + 1) = keptBraces t (escapedAt t) brace index +
      if (after (t.take index)).keeps brace c then 1 else 0 := by
  have hPlace : (t[index]? == some brace && isOutside t index && !escapedAt t index) =
      (after (t.take index)).keeps brace c := by
    rw [escapedAt_of_getElem? h, isOutside_eq, h, keeps]
    rfl
  rw [keptBraces, List.range_succ, List.countP_append, List.countP_singleton, hPlace, keptBraces]

/-- Behind the end of a text nothing more is counted. -/
theorem keptBraces_succ_none (h : t[index]? = none) (brace : Char) :
    keptBraces t (escapedAt t) brace (index + 1) = keptBraces t (escapedAt t) brace index := by
  rw [keptBraces, List.range_succ, List.countP_append, List.countP_singleton, h, keptBraces]
  rfl

end Places

theorem keptBraces_eq_depth (t : Text) (n : Nat) :
    keptBraces t (escapedAt t) '{' n =
      keptBraces t (escapedAt t) '}' n + (after (t.take n)).depth := by
  induction n with
  | zero => rfl
  | succ n ih =>
    cases hChar : t[n]? with
    | none =>
      have hEnd : t.take (n + 1) = t.take n := by rw [List.take_add_one, hChar]; simp
      rw [keptBraces_succ_none hChar, keptBraces_succ_none hChar, hEnd, ih]
    | some c =>
      have hStep := depth_next (after (t.take n)) c
      rw [keptBraces_succ hChar, keptBraces_succ hChar, after_take_succ hChar]
      omega

/-- A backslash is put before some braces outside mathematics and nothing else is changed. An
opening brace is left as it is behind a letter, and a closing one if more opening than closing
braces before it were. -/
theorem escapeBraces_inserts (t : Text) :
    ∃ escaped, escapeBraces t = insertBackslashes escaped t ∧ EscapesBraces t escaped := by
  refine ⟨escapedAt t, escapeBraces_eq_insertBackslashes t, ?_, ?_, ?_, ?_⟩
  · intro index hEscaped
    rw [escapedAt, Option.any_eq_true] at hEscaped
    obtain ⟨c, hChar, hEscapes⟩ := hEscaped
    simp only [escapes, Bool.and_eq_true, Bool.or_eq_true, beq_iff_eq] at hEscapes
    rw [isOutside_eq, hChar]
    refine ⟨hEscapes.1, ?_⟩
    rcases hEscapes.2 with ⟨rfl, _⟩ | ⟨rfl, _⟩
    · exact Or.inl rfl
    · exact Or.inr rfl
  · intro index hChar hOutside
    rw [isOutside_eq, Bool.not_eq_true'] at hOutside
    rw [escapedAt_of_getElem? hChar, endsWithLetter, ← last_after]
    simp [escapes, hOutside]
  · intro index hChar hOutside
    have hDepth := keptBraces_eq_depth t index
    rw [isOutside_eq, Bool.not_eq_true'] at hOutside
    have hEscapes : (after (t.take index)).escapes '}' = ((after (t.take index)).depth == 0) := by
      simp [escapes, hOutside]
    rw [escapedAt_of_getElem? hChar, hEscapes, beq_eq_false_iff_ne]
    omega
  · intro n
    have hDepth := keptBraces_eq_depth t n
    omega

/-! ## Texts whose braces are all escaped -/

/-- A text with a backslash before every brace. -/
def escapeEveryBrace (t : Text) : Text :=
  t.flatMap fun c => if c = '{' ∨ c = '}' then ['\\', c] else [c]

namespace BraceState

variable {s : BraceState} {c : Char}

/-- Outside mathematics, with no argument brace open and none opened, every brace gets a
backslash. -/
theorem escapes_iff (hMath : s.math = false) (hDepth : s.depth = 0)
    (hKeeps : s.keeps '{' c = false) : s.escapes c ↔ c = '{' ∨ c = '}' := by
  by_cases hOpen : c = '{'
  · have hEscapes : s.escapes c = true := by simpa [keeps, hMath, hOpen] using hKeeps
    exact iff_of_true hEscapes (Or.inl hOpen)
  · simp [escapes, hMath, hDepth, hOpen]

theorem depth_next_eq_zero (hDepth : s.depth = 0) (hKeeps : s.keeps '{' c = false) :
    (s.next c).depth = 0 := by
  have hStep := depth_next s c
  rw [hKeeps, hDepth] at hStep
  simp only [Bool.false_eq_true, if_false] at hStep
  omega

/-- A brace that is kept stands where a backslash should. Up to the first such brace no argument is
open, so that the closing braces get their backslashes too. -/
theorem escapeBracesFrom_eq_every_iff (hMath : s.math = false) (hDepth : s.depth = 0) {t : Text}
    (hDollar : '$' ∉ t) :
    escapeBracesFrom s.math s.depth s.last t = escapeEveryBrace t ↔
      ∀ index, t[index]? = some '{' → ((t.take index).foldl next s).last.any isLetter = false := by
  induction t generalizing s with
  | nil => simp [escapeEveryBrace, escapeBracesFrom]
  | cons c t ih =>
    rw [List.mem_cons, not_or] at hDollar
    rw [escapeBracesFrom_cons, escapeEveryBrace, List.flatMap_cons]
    have hOpening (hOpen : c = '{') : s.keeps '{' c = s.last.any isLetter := by
      simp [keeps, escapes, hMath, hOpen]
    cases hKeeps : s.keeps '{' c with
    | true =>
      obtain ⟨hOpen, hPlain⟩ : c = '{' ∧ s.escapes c = false := by
        simpa [keeps, hMath] using hKeeps
      rw [hPlain, hOpen]
      refine iff_of_false (by simp) fun h => ?_
      have hLetter := h 0 rfl
      rw [List.take_zero, List.foldl_nil, ← hOpening hOpen, hKeeps] at hLetter
      cases hLetter
    | false =>
      have hFirst : (if s.escapes c then ['\\', c] else [c]) =
          if c = '{' ∨ c = '}' then ['\\', c] else [c] := by
        simp only [escapes_iff hMath hDepth hKeeps]
      have hNext : (s.next c).math = false := by simp [next, hMath, Ne.symm hDollar.1]
      rw [hFirst, List.append_right_inj, ← escapeEveryBrace,
        ih hNext (depth_next_eq_zero hDepth hKeeps) hDollar.2]
      constructor
      · intro h index hBrace
        cases index with
        | zero => rw [List.take_zero, List.foldl_nil, ← hOpening (Option.some.inj hBrace), hKeeps]
        | succ index => exact h index hBrace
      · intro h index hBrace
        exact h (index + 1) hBrace

end BraceState

/-- In a text without mathematics every brace gets a backslash exactly if no opening brace stands
behind a letter, blanks aside. That letter need not belong to the name of a command. -/
theorem escapeBraces_eq_every_iff {t : Text} (hDollar : '$' ∉ t) :
    escapeBraces t = escapeEveryBrace t ↔
      ∀ index, t[index]? = some '{' → endsWithLetter (t.take index) = false := by
  simp only [endsWithLetter, ← last_after]
  exact @escapeBracesFrom_eq_every_iff (after []) rfl rfl t hDollar

/-- Braces behind a colon and a comma. -/
theorem escapeBraces_eq_every_iff_colon :
    escapeBraces "Menge: \x7b1, \x7b2\x7d\x7d".toList =
      "Menge: \\\x7b1, \\\x7b2\\\x7d\\\x7d".toList := by
  refine (escapeBraces_eq_every_iff (by decide)).mpr fun index hBrace => ?_
  have hPlaces : ∀ index < 15, "Menge: \x7b1, \x7b2\x7d\x7d".toList[index]? = some '{' →
      endsWithLetter ("Menge: \x7b1, \x7b2\x7d\x7d".toList.take index) = false := by
    decide
  exact hPlaces index (List.getElem?_eq_some_iff.mp hBrace).1 hBrace

/-- A brace behind a word is kept, although there is no command in the text, and so is the one that
closes it. -/
theorem escapeBraces_keeps_brace_behind_word :
    '\\' ∉ "set \x7ba\x7d".toList ∧ '$' ∉ "set \x7ba\x7d".toList ∧
      escapeBraces "set \x7ba\x7d".toList = "set \x7ba\x7d".toList ∧
      escapeEveryBrace "set \x7ba\x7d".toList = "set \\\x7ba\\\x7d".toList := by
  decide

/-! ## Texts whose braces are all kept -/

namespace BraceState

variable {s : BraceState} {c : Char}

theorem count_escapeBracesFrom {d : Char} (hd : d ≠ '\\') (s : BraceState) (t : Text) :
    (escapeBracesFrom s.math s.depth s.last t).count d = t.count d := by
  induction t generalizing s with
  | nil => rfl
  | cons c t ih =>
    have hFirst : (if s.escapes c then ['\\', c] else [c]).count d = [c].count d := by
      split
      · exact List.count_cons_of_ne (Ne.symm hd)
      · rfl
    rw [escapeBracesFrom_cons, List.count_append, ih, hFirst, ← List.count_append]
    rfl

/-- Outside mathematics a character gets no backslash unless it is an opening brace that stands
behind no letter or a closing one with no argument to be closed. -/
theorem escapes_eq_false_iff (hMath : s.math = false) :
    s.escapes c = false ↔ (c = '{' → s.last.any isLetter) ∧ (c = '}' → 0 < s.depth) := by
  by_cases hOpen : c = '{'
  · simp [escapes, hMath, hOpen]
  · by_cases hClose : c = '}'
    · simp [escapes, hMath, hClose, Nat.pos_iff_ne_zero]
    · simp [escapes, hOpen, hClose]

theorem depth_next_of_kept (hMath : s.math = false) (hEscapes : s.escapes c = false) :
    (s.next c).depth + [c].count '}' = s.depth + [c].count '{' := by
  have hKeeps (brace : Char) : (if s.keeps brace c then 1 else 0) = [c].count brace := by
    simp [keeps, hMath, hEscapes, List.count_singleton]
  rw [← hKeeps, ← hKeeps]
  exact depth_next s c

/-- A brace that gets a backslash stands where none may be. Up to the first such brace the count of
open arguments is that of all braces. -/
theorem escapeBracesFrom_eq_self_iff (hMath : s.math = false) {t : Text} (hDollar : '$' ∉ t) :
    escapeBracesFrom s.math s.depth s.last t = t ↔
      (∀ index, t[index]? = some '{' → ((t.take index).foldl next s).last.any isLetter) ∧
        ∀ beginning, beginning <+: t → beginning.count '}' ≤ s.depth + beginning.count '{' := by
  induction t generalizing s with
  | nil => simp [escapeBracesFrom]
  | cons c t ih =>
    rw [List.mem_cons, not_or] at hDollar
    rw [escapeBracesFrom_cons]
    cases hEscapes : s.escapes c with
    | true =>
      refine iff_of_false (fun h => ?_) ?_
      · obtain rfl : '\\' = c := (List.cons.inj h).1
        simp [escapes] at hEscapes
      · rintro ⟨hLetters, hBeginnings⟩
        have hKept : s.escapes c = false := by
          refine (escapes_eq_false_iff hMath).mpr ⟨fun hOpen => ?_, fun hClose => ?_⟩
          · exact hLetters 0 (congrArg some hOpen)
          · have hFirst := hBeginnings [c] ⟨t, rfl⟩
            rw [hClose] at hFirst
            exact hFirst
        cases hEscapes.symm.trans hKept
    | false =>
      have hNext : (s.next c).math = false := by simp [next, hMath, Ne.symm hDollar.1]
      have hDepth := depth_next_of_kept hMath hEscapes
      have hCount (brace : Char) (b : Text) :
          (c :: b).count brace = [c].count brace + b.count brace := by
        rw [← List.count_append, List.singleton_append]
      rw [if_neg Bool.false_ne_true, List.singleton_append, List.cons_inj_right,
        ih hNext hDollar.2]
      constructor
      · rintro ⟨hLetters, hBeginnings⟩
        refine ⟨fun index hBrace => ?_, fun beginning hBeginning => ?_⟩
        · cases index with
          | zero => exact ((escapes_eq_false_iff hMath).mp hEscapes).1 (Option.some.inj hBrace)
          | succ index => exact hLetters index hBrace
        · rcases List.prefix_cons_iff.mp hBeginning with rfl | ⟨b, rfl, hb⟩
          · simp
          · have hRest := hBeginnings b hb
            rw [hCount '}' b, hCount '{' b]
            omega
      · rintro ⟨hLetters, hBeginnings⟩
        refine ⟨fun index hBrace => hLetters (index + 1) hBrace, fun b hb => ?_⟩
        have hRest := hBeginnings (c :: b) (List.prefix_cons_inj c |>.mpr hb)
        rw [hCount '}' b, hCount '{' b] at hRest
        omega

end BraceState

theorem count_escapeBraces {d : Char} (hd : d ≠ '\\') (t : Text) :
    (escapeBraces t).count d = t.count d :=
  count_escapeBracesFrom hd (after []) t

theorem escapeBraces_eq_self_iff {t : Text} (hDollar : '$' ∉ t) :
    escapeBraces t = t ↔ (∀ index, t[index]? = some '{' → endsWithLetter (t.take index)) ∧
      ∀ beginning, beginning <+: t → beginning.count '}' ≤ beginning.count '{' := by
  simp only [endsWithLetter, ← last_after]
  have hKept := @escapeBracesFrom_eq_self_iff (after []) rfl t hDollar
  simp only [after, List.foldl_nil, Nat.zero_add] at hKept ⊢
  exact hKept

end ProseMath.Latex
