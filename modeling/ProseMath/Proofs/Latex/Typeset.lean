import Mathlib.Tactic.Common
import ProseMath.Proofs.Latex.Paragraph
import ProseMath.Proofs.Latex.WholeWord

/-!
# Inline mathematics of a line

`Typeset commands t` says that a text stays in one line and that all its inline mathematics are
single commands, each between two dollar signs. Every pass over a line of prose keeps this up: it
replaces text outside mathematics only, by characters or by commands.

* `Typeset.even_count`, `Typeset.mem_of_odd`: dollar signs come in pairs around commands.
* `Typeset.outsideMath`: a pass over the text outside mathematics.
* `typeset_escapeBracesFrom`: braces.
* `typeset_proseLine`, `typeset_item`: lines of prose and list items as they are written.
-/

namespace ProseMath.Latex

open Text

/-- A character that neither ends a line nor begins or ends mathematics. -/
def isPlain (c : Char) : Bool := c != '$' && c != '\n'

/-- A line whose inline mathematics are some commands. -/
inductive Typeset (commands : List Text) : Text → Prop
  | nil : Typeset commands []
  | char {c : Char} {t : Text} (hc : isPlain c) (hRest : Typeset commands t) :
    Typeset commands (c :: t)
  | math {command t : Text} (hCommand : command ∈ commands) (hRest : Typeset commands t) :
    Typeset commands (inlineMath command ++ t)

theorem ne_of_isPlain {c : Char} (h : isPlain c) : c ≠ '$' ∧ c ≠ '\n' := by
  simpa [isPlain] using h

theorem forall_isPlain_iff {t : Text} : (∀ c ∈ t, isPlain c) ↔ '$' ∉ t ∧ '\n' ∉ t := by
  constructor
  · intro h
    exact ⟨fun hMem => (ne_of_isPlain (h _ hMem)).1 rfl,
      fun hMem => (ne_of_isPlain (h _ hMem)).2 rfl⟩
  · rintro ⟨hDollar, hNewline⟩ c hc
    simp only [isPlain, Bool.and_eq_true, bne_iff_ne]
    exact ⟨fun h => hDollar (h ▸ hc), fun h => hNewline (h ▸ hc)⟩

section Typeset

variable {commands : List Text} {a b t : Text}

theorem typeset_of_plain (h : ∀ c ∈ t, isPlain c) : Typeset commands t := by
  induction t with
  | nil => exact .nil
  | cons c t ih =>
    obtain ⟨hc, hRest⟩ := List.forall_mem_cons.mp h
    exact .char hc (ih hRest)

theorem typeset_of_all (h : t.all isPlain) : Typeset commands t :=
  typeset_of_plain (List.all_eq_true.mp h)

theorem typeset_inlineMath {command : Text} (h : command ∈ commands) :
    Typeset commands (inlineMath command) := by
  have hMath := Typeset.math h .nil
  rwa [List.append_nil] at hMath

theorem Typeset.append (ha : Typeset commands a) (hb : Typeset commands b) :
    Typeset commands (a ++ b) := by
  induction ha with
  | nil => exact hb
  | char hc _ ih => exact .char hc ih
  | math hCommand _ ih =>
    rw [List.append_assoc]
    exact .math hCommand ih

theorem Typeset.append_all (ha : Typeset commands a) (hb : b.all isPlain) :
    Typeset commands (a ++ b) :=
  ha.append (typeset_of_all hb)

theorem inlineMath_append (command t : Text) :
    inlineMath command ++ t = '$' :: (command ++ '$' :: t) := by
  simp [inlineMath]

end Typeset

/-! ## Dollar signs -/

section Dollar

variable {commands : List Text} {t : Text}

theorem splitOn_cons_of_ne {c : Char} (h : c ≠ '$') (t : Text) :
    (c :: t).splitOn '$' = (t.splitOn '$').modifyHead (c :: ·) := by
  rw [List.splitOn_cons_eq_if_modifyHead, if_neg (by simpa using h)]

theorem splitOn_math {before inside : Text} (hBefore : '$' ∉ before) (hInside : '$' ∉ inside)
    (t : Text) :
    (before ++ '$' :: (inside ++ '$' :: t)).splitOn '$' = before :: inside :: t.splitOn '$' := by
  rw [List.splitOn_append_cons_self_of_not_mem hBefore,
    List.splitOn_append_cons_self_of_not_mem hInside]

theorem outsideMath_math {before inside : Text} (hBefore : '$' ∉ before) (hInside : '$' ∉ inside)
    (f : Text → Text) (t : Text) :
    outsideMath f (before ++ '$' :: (inside ++ '$' :: t)) =
      f before ++ '$' :: (inside ++ '$' :: outsideMath f t) := by
  have hMore : mapAlternate f (t.splitOn '$') ≠ [] := by
    have hSplit : t.splitOn '$' ≠ [] := List.splitOn_ne_nil _ _
    revert hSplit
    fun_cases mapAlternate f (t.splitOn '$') <;> simp
  rw [outsideMath, splitOn_math hBefore hInside, mapAlternate,
    List.intercalate_cons_of_ne_nil (by simp), List.intercalate_cons_of_ne_nil hMore, outsideMath]
  simp

namespace Typeset

variable (hCommands : ∀ command ∈ commands, ∀ c ∈ command, isPlain c)

include hCommands

theorem not_mem_newline (h : Typeset commands t) : '\n' ∉ t := by
  induction h with
  | nil => exact List.not_mem_nil
  | char hc _ ih =>
    intro hMem
    rcases List.mem_cons.mp hMem with rfl | hMem
    · exact (ne_of_isPlain hc).2 rfl
    · exact ih hMem
  | math hCommand _ ih =>
    intro hMem
    rw [inlineMath_append] at hMem
    simp only [List.mem_cons, List.mem_append] at hMem
    rcases hMem with hMem | hMem | hMem | hMem
    · cases hMem
    · exact (forall_isPlain_iff.mp (hCommands _ hCommand)).2 hMem
    · cases hMem
    · exact ih hMem

theorem dollar_not_mem {command : Text} (h : command ∈ commands) : '$' ∉ command :=
  (forall_isPlain_iff.mp (hCommands command h)).1

theorem even_count (h : Typeset commands t) : t.count '$' % 2 = 0 := by
  induction h with
  | nil => rfl
  | char hc _ ih => rwa [List.count_cons_of_ne (ne_of_isPlain hc).1]
  | math hCommand _ ih =>
    have hNone : List.count '$' _ = 0 := List.count_eq_zero.mpr (dollar_not_mem hCommands hCommand)
    rw [inlineMath_append, List.count_cons_self, List.count_append, List.count_cons_self, hNone]
    omega

/-- The pieces between dollar signs are outside and inside mathematics in turn. -/
theorem mem_of_odd (h : Typeset commands t) {index : Nat} {piece : Text}
    (hPiece : (t.splitOn '$')[2 * index + 1]? = some piece) : piece ∈ commands := by
  induction h generalizing index with
  | nil => simp [List.splitOn_nil] at hPiece
  | char hc _ ih =>
    rw [splitOn_cons_of_ne (ne_of_isPlain hc).1, List.getElem?_modifyHead] at hPiece
    exact ih (by simpa using hPiece)
  | @math command rest hCommand _ ih =>
    have hInside := dollar_not_mem hCommands hCommand
    rw [inlineMath_append, ← List.nil_append ('$' :: _),
      splitOn_math List.not_mem_nil hInside] at hPiece
    cases index with
    | zero =>
      cases hPiece
      exact hCommand
    | succ index =>
      have hLater : (rest.splitOn '$')[2 * index + 1]? = some piece := hPiece
      exact ih hLater

/-- A pass over the text outside mathematics. -/
theorem outsideMath {f : Text → Text}
    (hf : ∀ piece : Text, (∀ c ∈ piece, isPlain c) → Typeset commands (f piece))
    (h : Typeset commands t) : Typeset commands (outsideMath f t) := by
  -- `before` is what has been met since the last command
  suffices hBefore : ∀ before : Text, (∀ c ∈ before, isPlain c) →
      Typeset commands (Latex.outsideMath f (before ++ t)) from hBefore [] (by simp)
  have hDollar {piece : Text} (hPlain : ∀ c ∈ piece, isPlain c) : '$' ∉ piece :=
    (forall_isPlain_iff.mp hPlain).1
  induction h with
  | nil =>
    intro before hPlain
    rw [List.append_nil, outsideMath_of_not_mem f (hDollar hPlain)]
    exact hf before hPlain
  | @char c t hc _ ih =>
    intro before hPlain
    have hMore : ∀ d ∈ before ++ [c], isPlain d :=
      List.forall_mem_append.mpr ⟨hPlain, by simpa using hc⟩
    have hRest := ih (before ++ [c]) hMore
    rwa [List.append_assoc] at hRest
  | @math command t hCommand _ ih =>
    intro before hPlain
    rw [inlineMath_append,
      outsideMath_math (hDollar hPlain) (dollar_not_mem hCommands hCommand), ← inlineMath_append]
    exact (hf before hPlain).append (.math hCommand (ih [] (by simp)))

end Typeset

end Dollar

/-! ## Replacements -/

section Replacement

variable {commands : List Text} {table : List (Text × Text)} {t : Text}

theorem typeset_replaceWords (hTable : ∀ entry ∈ table, Typeset commands entry.2)
    (h : ∀ c ∈ t, isPlain c) (before : Option Char) :
    Typeset commands (replaceWords table before t) := by
  fun_induction replaceWords table before t with
  | case1 => exact .nil
  | case2 before c t word new hFound ih =>
    have hRest := (List.forall_mem_cons.mp h).2
    exact (hTable _ (List.mem_of_find?_eq_some hFound)).append
      (ih fun d hd => hRest d (List.mem_of_mem_drop hd))
  | case3 before c t hNone ih =>
    obtain ⟨hc, hRest⟩ := List.forall_mem_cons.mp h
    exact .char hc (ih hRest)

theorem typeset_replaceEach (hTable : ∀ entry ∈ table, Typeset commands entry.2)
    (h : ∀ c ∈ t, isPlain c) : Typeset commands (replaceEach table t) := by
  fun_induction replaceEach table t with
  | case1 => exact .nil
  | case2 c t old new hFound ih =>
    have hRest := (List.forall_mem_cons.mp h).2
    exact (hTable _ (List.mem_of_find?_eq_some hFound)).append
      (ih fun d hd => hRest d (List.mem_of_mem_drop hd))
  | case3 c t hNone ih =>
    obtain ⟨hc, hRest⟩ := List.forall_mem_cons.mp h
    exact .char hc (ih hRest)

theorem replaceWords_ne_nil (hTable : ∀ entry ∈ table, entry.2 ≠ []) (before : Option Char)
    (h : t ≠ []) : replaceWords table before t ≠ [] := by
  fun_cases replaceWords table before t with
  | case1 => exact h
  | case2 c t word new hFound => simp [hTable _ (List.mem_of_find?_eq_some hFound)]
  | case3 c t hNone => simp

theorem typeset_inlineTable (h : ∀ entry ∈ table, entry.2 ∈ commands) :
    ∀ entry ∈ inlineTable table, Typeset commands entry.2 := by
  intro entry hEntry
  obtain ⟨source, hSource, rfl⟩ := List.mem_map.mp hEntry
  exact typeset_inlineMath (h source hSource)

end Replacement

/-! ## Multiplication signs -/

section Times

/-- A multiplication sign is a single character. -/
theorem replaceWords_times_cons (before : Option Char) (c : Char) (t : Text) :
    replaceWords (inlineTable timesWord) before (c :: t) =
        c :: replaceWords (inlineTable timesWord) (some c) t ∨
      c = 'x' ∧ replaceWords (inlineTable timesWord) before (c :: t) =
        inlineMath "\\times".toList ++ replaceWords (inlineTable timesWord) (some c) t := by
  rw [replaceWords]
  split
  · rename_i word new hFound
    have hEntry := List.mem_of_find?_eq_some hFound
    obtain ⟨rfl, rfl⟩ : word = ['x'] ∧ new = inlineMath "\\times".toList := by
      simpa [inlineTable, timesWord] using hEntry
    have hStarts := List.find?_some hFound
    obtain rfl : 'x' = c := by
      simp only [startsWithWord, Bool.and_eq_true] at hStarts
      simpa using hStarts.1.2
    exact Or.inr ⟨rfl, rfl⟩
  · exact Or.inl rfl

theorem replaceWords_times_append {a : Text} (h : 'x' ∉ a) (before : Option Char) (t : Text) :
    replaceWords (inlineTable timesWord) before (a ++ t) =
      a ++ replaceWords (inlineTable timesWord) (a.getLast?.or before) t := by
  refine replaceWords_append ?_ before t
  intro entry hEntry
  obtain rfl := List.mem_singleton.mp hEntry
  exact ⟨'x', [], rfl, h⟩

/-- Arrows have been replaced when multiplication signs are looked for, and there is none in their
command. -/
theorem typeset_times {commands : List Text} (hArrow : "\\to".toList ∈ commands)
    (hTimes : "\\times".toList ∈ commands) {t : Text} (h : Typeset ["\\to".toList] t)
    (before : Option Char) : Typeset commands (replaceWords (inlineTable timesWord) before t) := by
  induction h generalizing before with
  | nil =>
    rw [replaceWords]
    exact .nil
  | @char c t hc _ ih =>
    rcases replaceWords_times_cons before c t with hKept | ⟨_, hReplaced⟩
    · rw [hKept]
      exact .char hc (ih _)
    · rw [hReplaced]
      exact .math hTimes (ih _)
  | @math command t hCommand _ ih =>
    obtain rfl := List.mem_singleton.mp hCommand
    rw [replaceWords_times_append (a := inlineMath "\\to".toList) (by decide)]
    exact .math hArrow (ih _)

end Times

/-! ## Braces -/

section Brace

variable {commands : List Text} {t : Text}

theorem escapeBracesFrom_dollar (math : Bool) (depth : Nat) (last : Option Char) (t : Text) :
    escapeBracesFrom math depth last ('$' :: t) =
      '$' :: escapeBracesFrom (!math) depth (some '$') t := by
  cases depth <;> simp [escapeBracesFrom]

theorem escapeBracesFrom_inside {c : Char} (hc : c ≠ '$') (depth : Nat) (last : Option Char)
    (t : Text) :
    ∃ after, escapeBracesFrom true depth last (c :: t) =
      c :: escapeBracesFrom true depth after t := by
  cases depth <;> exact ⟨_, by simp [escapeBracesFrom, hc]; rfl⟩

/-- Outside mathematics a character is kept, with a backslash before it or without one. -/
theorem escapeBracesFrom_outside {c : Char} (hc : c ≠ '$') (depth : Nat) (last : Option Char)
    (t : Text) :
    ∃ escape depth' after, (escape = [] ∨ escape = ['\\']) ∧
      escapeBracesFrom false depth last (c :: t) =
        escape ++ c :: escapeBracesFrom false depth' after t := by
  rw [escapeBracesFrom.eq_def]
  simp only [if_neg hc, Bool.false_eq_true, if_false]
  split
  · split
    · exact ⟨[], _, _, Or.inl rfl, rfl⟩
    · exact ⟨['\\'], _, _, Or.inr rfl, rfl⟩
  · split
    · split
      · exact ⟨['\\'], _, _, Or.inr rfl, rfl⟩
      · exact ⟨[], _, _, Or.inl rfl, rfl⟩
    · exact ⟨[], _, _, Or.inl rfl, rfl⟩

theorem escapeBracesFrom_math {inside : Text} (h : '$' ∉ inside) (depth : Nat) (last : Option Char)
    (t : Text) :
    escapeBracesFrom true depth last (inside ++ '$' :: t) =
      inside ++ '$' :: escapeBracesFrom false depth (some '$') t := by
  induction inside generalizing last with
  | nil => exact escapeBracesFrom_dollar true depth last t
  | cons c inside ih =>
    have hc : c ≠ '$' := fun hDollar => h (hDollar ▸ List.mem_cons_self)
    obtain ⟨after, hAfter⟩ := escapeBracesFrom_inside hc depth last (inside ++ '$' :: t)
    rw [List.cons_append, hAfter, ih (fun hMem => h (List.mem_cons_of_mem _ hMem)),
      List.cons_append]

theorem typeset_escapeBracesFrom (hCommands : ∀ command ∈ commands, ∀ c ∈ command, isPlain c)
    (h : Typeset commands t) (depth : Nat) (last : Option Char) :
    Typeset commands (escapeBracesFrom false depth last t) := by
  induction h generalizing depth last with
  | nil => exact .nil
  | @char c t hc _ ih =>
    have hBackslash : isPlain '\\' := by decide
    obtain ⟨escape, depth', after, hEscape, hStep⟩ :=
      escapeBracesFrom_outside (ne_of_isPlain hc).1 depth last t
    rw [hStep]
    rcases hEscape with rfl | rfl
    · exact .char hc (ih _ _)
    · exact .char hBackslash (.char hc (ih _ _))
  | @math command t hCommand _ ih =>
    have hDollar := Typeset.dollar_not_mem hCommands hCommand
    rw [inlineMath_append, escapeBracesFrom_dollar, Bool.not_false,
      escapeBracesFrom_math hDollar, ← inlineMath_append]
    exact .math hCommand (ih _ _)

theorem escapeBraces_ne_nil (h : t ≠ []) : escapeBraces t ≠ [] := by
  obtain ⟨c, t, rfl⟩ := List.exists_cons_of_ne_nil h
  rw [escapeBraces]
  by_cases hc : c = '$'
  · rw [hc, escapeBracesFrom_dollar]
    exact List.cons_ne_nil _ _
  · obtain ⟨escape, depth, after, _, hStep⟩ := escapeBracesFrom_outside hc 0 none t
    rw [hStep]
    exact List.append_ne_nil_of_right_ne_nil _ (List.cons_ne_nil _ _)

end Brace

/-! ## Lines -/

/-- The commands that stand for symbols in prose. -/
def symbolCommands : List Text :=
  (greek ++ proseWords).map Prod.snd ++ ["\\to".toList, "\\times".toList]

theorem isPlain_symbolCommands : ∀ command ∈ symbolCommands, ∀ c ∈ command, isPlain c := by
  have hAll : symbolCommands.all (·.all isPlain) := by decide
  intro command hCommand
  exact List.all_eq_true.mp (List.all_eq_true.mp hAll command hCommand)

section Line

variable {t : Text}

theorem Typeset.textSymbols (h : Typeset symbolCommands t) :
    Typeset symbolCommands (textSymbols t) := by
  refine h.outsideMath isPlain_symbolCommands fun piece hPiece => ?_
  apply typeset_replaceWords (typeset_inlineTable _) hPiece
  intro entry hEntry
  exact List.mem_append_left _ (List.mem_map_of_mem hEntry)

theorem Typeset.itemSymbols (h : Typeset symbolCommands t) :
    Typeset symbolCommands (itemSymbols t) := by
  refine h.outsideMath isPlain_symbolCommands fun piece hPiece => ?_
  apply typeset_times (by simp [symbolCommands]) (by simp [symbolCommands])
  apply typeset_replaceEach _ hPiece
  simpa using typeset_inlineMath (List.mem_singleton_self _)

theorem Typeset.escapeBraces (h : Typeset symbolCommands t) :
    Typeset symbolCommands (escapeBraces t) :=
  typeset_escapeBracesFrom isPlain_symbolCommands h 0 none

theorem typeset_proseLine (h : ∀ c ∈ t, isPlain c) : Typeset symbolCommands (proseLine t) :=
  (typeset_of_plain h).textSymbols.escapeBraces

theorem typeset_item (h : ∀ c ∈ t, isPlain c) :
    Typeset symbolCommands (escapeBraces (itemSymbols (textSymbols t))) :=
  (typeset_of_plain h).textSymbols.itemSymbols.escapeBraces

theorem proseLine_ne_nil (hDollar : '$' ∉ t) (h : t ≠ []) : proseLine t ≠ [] := by
  have hTable : ∀ entry ∈ inlineTable (greek ++ proseWords), entry.2 ≠ [] := by
    intro entry hEntry
    obtain ⟨source, _, rfl⟩ := List.mem_map.mp hEntry
    simp [inlineMath]
  apply escapeBraces_ne_nil
  rw [textSymbols, outsideMath_of_not_mem _ hDollar]
  exact replaceWords_ne_nil hTable none h

end Line

end ProseMath.Latex
