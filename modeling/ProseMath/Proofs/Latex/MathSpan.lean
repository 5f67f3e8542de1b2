import Mathlib.Tactic.Common
import ProseMath.Proofs.Latex.Substitution

/-!
# Passes over prose keep its mathematics

Every pass over a line has its own way to tell where mathematics is: most split the line at its
dollar signs and skip every second piece, while the escaping of braces goes through it character by
character. All of them leave the pieces inside mathematics as they are, in their order, also behind
a dollar sign that is not closed. Symbols add further pieces in between, each a single command.

* `mathPieces_append`: behind pairs of dollar signs the pieces are those of the rest.
* `sameMath_outsideMath`, `addsMath_outsideMath`: passes over the pieces outside mathematics.
* `sameMath_escapeBracesFrom`: the escaping of braces.
* `passes_keep_math`: emphasis, braces and symbols.
-/

namespace ProseMath.Latex

open Text

/-! ## Pieces inside mathematics -/

/-- The second, the fourth, … of some pieces. -/
def everySecond : List Text → List Text
  | _ :: inside :: rest => inside :: everySecond rest
  | _ => []

/-- The pieces of a text inside mathematics, which are those at odd indices between its dollar
signs. -/
def mathPieces (t : Text) : List Text := everySecond (t.splitOn '$')

/-- The second list is the first one with further elements in between. -/
inductive Inserts (p : Text → Prop) : List Text → List Text → Prop
  | nil : Inserts p [] []
  | keep (piece : Text) {a b : List Text} (hRest : Inserts p a b) :
    Inserts p (piece :: a) (piece :: b)
  | insert {piece : Text} {a b : List Text} (hPiece : p piece) (hRest : Inserts p a b) :
    Inserts p a (piece :: b)

/-- Two texts with the same mathematics. -/
structure SameMath (t u : Text) : Prop where
  count : u.count '$' = t.count '$'
  pieces : mathPieces u = mathPieces t

/-- The second text has the mathematics of the first one and some commands more, and ends inside
mathematics if the first one does. -/
structure AddsMath (commands : List Text) (t u : Text) : Prop where
  parity : u.count '$' % 2 = t.count '$' % 2
  pieces : Inserts (· ∈ commands) (mathPieces t) (mathPieces u)

/-- A text whose mathematics are closed and some commands. -/
structure OnlyCommands (commands : List Text) (t : Text) : Prop where
  even : t.count '$' % 2 = 0
  pieces : ∀ piece ∈ mathPieces t, piece ∈ commands

section Pieces

variable {a inside : Text}

theorem mathPieces_of_not_mem {t : Text} (h : '$' ∉ t) : mathPieces t = [] := by
  rw [mathPieces, List.splitOn_eq_singleton h]
  rfl

theorem mathPieces_unclosed (ha : '$' ∉ a) (hInside : '$' ∉ inside) :
    mathPieces (a ++ '$' :: inside) = [inside] := by
  rw [mathPieces, List.splitOn_append_cons_self_of_not_mem ha, List.splitOn_eq_singleton hInside]
  rfl

theorem mathPieces_math (ha : '$' ∉ a) (hInside : '$' ∉ inside) (t : Text) :
    mathPieces (a ++ '$' :: (inside ++ '$' :: t)) = inside :: mathPieces t := by
  rw [mathPieces, splitOn_math ha hInside]
  rfl

theorem mathPieces_append_plain (ha : '$' ∉ a) (t : Text) : mathPieces (a ++ t) = mathPieces t := by
  have hBoth {b : Text} (hb : '$' ∉ b) : '$' ∉ a ++ b := by simp [ha, hb]
  induction t using math_induction with
  | plain t ht => rw [mathPieces_of_not_mem (hBoth ht), mathPieces_of_not_mem ht]
  | unclosed b inside hb hInside =>
    rw [← List.append_assoc, mathPieces_unclosed (hBoth hb) hInside, mathPieces_unclosed hb hInside]
  | math b inside t hb hInside _ =>
    rw [← List.append_assoc, mathPieces_math (hBoth hb) hInside, mathPieces_math hb hInside]

theorem count_math (ha : '$' ∉ a) (hInside : '$' ∉ inside) (t : Text) :
    (a ++ '$' :: (inside ++ '$' :: t)).count '$' = t.count '$' + 2 := by
  rw [List.count_append, List.count_cons_self, List.count_append, List.count_cons_self,
    List.count_eq_zero.mpr ha, List.count_eq_zero.mpr hInside]
  omega

theorem count_unclosed (ha : '$' ∉ a) (hInside : '$' ∉ inside) :
    (a ++ '$' :: inside).count '$' = 1 := by
  rw [List.count_append, List.count_cons_self, List.count_eq_zero.mpr ha,
    List.count_eq_zero.mpr hInside]

/-- Behind an even number of dollar signs a text is outside mathematics again. -/
theorem mathPieces_append (hEven : a.count '$' % 2 = 0) (t : Text) :
    mathPieces (a ++ t) = mathPieces a ++ mathPieces t := by
  induction a using math_induction with
  | plain a ha => rw [mathPieces_append_plain ha, mathPieces_of_not_mem ha, List.nil_append]
  | unclosed a inside ha hInside =>
    rw [count_unclosed ha hInside] at hEven
    cases hEven
  | math a inside rest ha hInside ih =>
    rw [count_math ha hInside, Nat.add_mod_right] at hEven
    have hText : a ++ '$' :: (inside ++ '$' :: rest) ++ t =
        a ++ '$' :: (inside ++ '$' :: (rest ++ t)) := by simp
    rw [hText, mathPieces_math ha hInside, mathPieces_math ha hInside, ih hEven, List.cons_append]

theorem mathPieces_inlineMath {command : Text} (h : '$' ∉ command) (t : Text) :
    mathPieces (inlineMath command ++ t) = command :: mathPieces t := by
  rw [inlineMath_append]
  exact mathPieces_math List.not_mem_nil h t

end Pieces

theorem Inserts.refl {p : Text → Prop} (pieces : List Text) : Inserts p pieces pieces := by
  induction pieces with
  | nil => exact .nil
  | cons piece rest ih => exact .keep piece ih

theorem Inserts.append_left {p : Text → Prop} {a b front : List Text}
    (hFront : ∀ piece ∈ front, p piece) (h : Inserts p a b) : Inserts p a (front ++ b) := by
  induction front with
  | nil => exact h
  | cons piece front ih =>
    obtain ⟨hPiece, hFront⟩ := List.forall_mem_cons.mp hFront
    exact .insert hPiece (ih hFront)

/-! ## Passes over the pieces outside mathematics -/

section Pass

variable {commands : List Text} {a b inside t u : Text}

theorem sameMath_plain (ha : '$' ∉ a) (hb : '$' ∉ b) : SameMath a b where
  count := by rw [List.count_eq_zero.mpr ha, List.count_eq_zero.mpr hb]
  pieces := by rw [mathPieces_of_not_mem ha, mathPieces_of_not_mem hb]

theorem sameMath_unclosed (ha : '$' ∉ a) (hb : '$' ∉ b) (hInside : '$' ∉ inside) :
    SameMath (a ++ '$' :: inside) (b ++ '$' :: inside) where
  count := by rw [count_unclosed ha hInside, count_unclosed hb hInside]
  pieces := by rw [mathPieces_unclosed ha hInside, mathPieces_unclosed hb hInside]

theorem SameMath.math (h : SameMath t u) (ha : '$' ∉ a) (hb : '$' ∉ b) (hInside : '$' ∉ inside) :
    SameMath (a ++ '$' :: (inside ++ '$' :: t)) (b ++ '$' :: (inside ++ '$' :: u)) where
  count := by rw [count_math ha hInside, count_math hb hInside, h.count]
  pieces := by rw [mathPieces_math ha hInside, mathPieces_math hb hInside, h.pieces]

theorem SameMath.addsMath (h : SameMath t u) : AddsMath commands t u where
  parity := by rw [h.count]
  pieces := by
    rw [h.pieces]
    exact .refl _

theorem AddsMath.math (h : AddsMath commands t u) (ha : '$' ∉ a) (hb : '$' ∉ b)
    (hInside : '$' ∉ inside) :
    AddsMath commands (a ++ '$' :: (inside ++ '$' :: t)) (b ++ '$' :: (inside ++ '$' :: u)) where
  parity := by
    rw [count_math ha hInside, count_math hb hInside, Nat.add_mod_right, Nat.add_mod_right,
      h.parity]
  pieces := by
    rw [mathPieces_math ha hInside, mathPieces_math hb hInside]
    exact .keep inside h.pieces

theorem OnlyCommands.addsMath (h : OnlyCommands commands b) (ha : '$' ∉ a) :
    AddsMath commands a b where
  parity := by rw [h.even, List.count_eq_zero.mpr ha]
  pieces := by
    have hPieces := Inserts.append_left h.pieces .nil
    rwa [List.append_nil, ← mathPieces_of_not_mem ha] at hPieces

/-- Commands in front of a text that keeps the mathematics of another. -/
theorem AddsMath.append_left (h : AddsMath commands t u) (hb : OnlyCommands commands b) :
    AddsMath commands t (b ++ u) where
  parity := by
    have hEven := hb.even
    have hParity := h.parity
    rw [List.count_append]
    omega
  pieces := by
    rw [mathPieces_append hb.even]
    exact h.pieces.append_left hb.pieces

theorem sameMath_outsideMath {f : Text → Text} (hf : ∀ piece, '$' ∉ piece → '$' ∉ f piece)
    (t : Text) : SameMath t (outsideMath f t) := by
  induction t using math_induction with
  | plain t ht =>
    rw [outsideMath_of_not_mem f ht]
    exact sameMath_plain ht (hf t ht)
  | unclosed a inside ha hInside =>
    rw [outsideMath_unclosed ha hInside]
    exact sameMath_unclosed ha (hf a ha) hInside
  | math a inside t ha hInside ih =>
    rw [outsideMath_math ha hInside]
    exact ih.math ha (hf a ha) hInside

theorem addsMath_outsideMath {f : Text → Text}
    (hf : ∀ piece, '$' ∉ piece → OnlyCommands commands (f piece)) (t : Text) :
    AddsMath commands t (outsideMath f t) := by
  induction t using math_induction with
  | plain t ht =>
    rw [outsideMath_of_not_mem f ht]
    exact (hf t ht).addsMath ht
  | unclosed a inside ha hInside =>
    rw [outsideMath_unclosed ha hInside]
    have hUnclosed : AddsMath commands (a ++ '$' :: inside) ('$' :: inside) :=
      (sameMath_unclosed ha List.not_mem_nil hInside).addsMath
    exact hUnclosed.append_left (hf a ha)
  | math a inside t ha hInside ih =>
    rw [outsideMath_math ha hInside]
    have hMath : AddsMath commands (a ++ '$' :: (inside ++ '$' :: t))
        ('$' :: (inside ++ '$' :: outsideMath f t)) := ih.math ha List.not_mem_nil hInside
    exact hMath.append_left (hf a ha)

end Pass

/-! ## Emphasis, symbols and braces -/

theorem sameMath_italics (t : Text) : SameMath t (italics t) := by
  apply sameMath_outsideMath
  intro piece hPiece
  exact dollar_not_mem_wrapBoth hPiece

section Table

variable {table : WordTable} (hTable : ∀ entry ∈ table, '$' ∉ entry.2)

include hTable

theorem onlyCommands_substitute {runs : List Text} (hRuns : '$' ∉ runs.flatten) :
    OnlyCommands (table.map Prod.snd) (substitute table runs) := by
  refine ⟨count_substitute hTable hRuns, ?_⟩
  induction runs with
  | nil =>
    rw [substitute, List.flatMap_nil, mathPieces_of_not_mem List.not_mem_nil]
    exact List.forall_mem_nil _
  | cons run rest ih =>
    rw [List.flatten_cons, List.mem_append, not_or] at hRuns
    cases hLookup : table.lookup run with
    | none =>
      rw [substitute_cons_none hLookup, mathPieces_append_plain hRuns.1]
      exact ih hRuns.2
    | some command =>
      obtain ⟨front, back, rfl, _⟩ := List.lookup_eq_some_iff.mp hLookup
      rw [substitute_cons_some hLookup,
        mathPieces_inlineMath (dollar_not_mem_of_lookup hTable hLookup)]
      exact List.forall_mem_cons.mpr ⟨by simp, ih hRuns.2⟩

theorem addsMath_pass (t : Text) : AddsMath (table.map Prod.snd) t (pass table t) := by
  apply addsMath_outsideMath
  intro piece hPiece
  apply onlyCommands_substitute hTable
  rwa [tiles, List.flatten_splitBy]

end Table

section Brace

/-- A text without dollar signs stays without them. -/
theorem escapeBracesFrom_plain {a : Text} (ha : '$' ∉ a) (depth : Nat) (last : Option Char)
    (t : Text) :
    ∃ b depth' after, '$' ∉ b ∧
      escapeBracesFrom false depth last (a ++ t) = b ++ escapeBracesFrom false depth' after t := by
  induction a generalizing depth last with
  | nil => exact ⟨[], depth, last, List.not_mem_nil, rfl⟩
  | cons c a ih =>
    rw [List.mem_cons, not_or] at ha
    obtain ⟨escape, depth', after, hEscape, hStep⟩ :=
      escapeBracesFrom_outside (Ne.symm ha.1) depth last (a ++ t)
    obtain ⟨b, depth'', after', hb, hRest⟩ := ih ha.2 depth' after
    refine ⟨escape ++ c :: b, depth'', after', ?_, ?_⟩
    · rcases hEscape with rfl | rfl <;> simp [ha.1, hb]
    · rw [List.cons_append, hStep, hRest, List.append_assoc, List.cons_append]

theorem escapeBracesFrom_unclosed {inside : Text} (h : '$' ∉ inside) (depth : Nat)
    (last : Option Char) : escapeBracesFrom true depth last inside = inside := by
  induction inside generalizing last with
  | nil => rfl
  | cons c inside ih =>
    rw [List.mem_cons, not_or] at h
    obtain ⟨after, hStep⟩ := escapeBracesFrom_inside (Ne.symm h.1) depth last inside
    rw [hStep, ih h.2]

theorem sameMath_escapeBracesFrom (depth : Nat) (last : Option Char) (t : Text) :
    SameMath t (escapeBracesFrom false depth last t) := by
  -- the depth is carried over mathematics, where it does not matter
  induction t using math_induction generalizing depth last with
  | plain t ht =>
    obtain ⟨b, _, _, hb, hText⟩ := escapeBracesFrom_plain ht depth last []
    rw [List.append_nil] at hText
    rw [hText, escapeBracesFrom, List.append_nil]
    exact sameMath_plain ht hb
  | unclosed a inside ha hInside =>
    obtain ⟨b, depth', after, hb, hText⟩ := escapeBracesFrom_plain ha depth last ('$' :: inside)
    rw [hText, escapeBracesFrom_dollar, Bool.not_false, escapeBracesFrom_unclosed hInside]
    exact sameMath_unclosed ha hb hInside
  | math a inside t ha hInside ih =>
    obtain ⟨b, depth', after, hb, hText⟩ :=
      escapeBracesFrom_plain ha depth last ('$' :: (inside ++ '$' :: t))
    rw [hText, escapeBracesFrom_dollar, Bool.not_false, escapeBracesFrom_math hInside]
    exact (ih _ _).math ha hb hInside

end Brace

/-- No pass over a line of prose touches its mathematics, be they closed or not. Emphasis and the
escaping of braces do not even move their bounds; symbols add their own commands between them. -/
theorem passes_keep_math (t : Text) :
    SameMath t (italics t) ∧ SameMath t (escapeBraces t) ∧
      AddsMath ((greek ++ proseWords).map Prod.snd) t (textSymbols t) ∧
      AddsMath ["\\to".toList, "\\times".toList] t (itemSymbols t) := by
  refine ⟨sameMath_italics t, sameMath_escapeBracesFrom 0 none t, ?_, ?_⟩
  · rw [textSymbols_eq_pass]
    exact addsMath_pass (fun entry hEntry =>
      dollar_not_mem_commands (List.mem_append_left _ hEntry)) t
  · rw [itemSymbols_eq_pass]
    exact addsMath_pass (fun entry hEntry =>
      dollar_not_mem_commands (List.mem_append_right _ hEntry)) t

end ProseMath.Latex
