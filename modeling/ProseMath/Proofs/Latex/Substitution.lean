import Mathlib.Data.Bool.AllAny
import Mathlib.Tactic.Common
import ProseMath.Proofs.Latex.Typeset
import ProseMath.Proofs.Latex.WholeWord

/-!
# Passes over prose

Symbols of prose are inserted as inline mathematics, so that a pass changes where the next one finds
text outside mathematics: every symbol brings two dollar signs and cuts the text in two. But a text
can be cut into words, arrows and single characters (`tiles`) such that each pass replaces some of
these tiles and keeps the others with the boundaries between them. Two passes one after the other
are then one pass with both tables.

* `outsideMath_outsideMath`: two passes, piece by piece.
* `textSymbols_eq_pass`, `itemSymbols_eq_pass`: the passes over prose replace tiles.
* `pass_pass`: two passes are one.
* `symbols_idempotent_commute`: passes can be repeated and exchanged.
-/

namespace ProseMath.Latex

open Text

/-! ## Text outside mathematics -/

/-- Induction on the inline mathematics of a text. The last one need not be closed. -/
@[elab_as_elim]
theorem math_induction {motive : Text → Prop} (plain : ∀ t : Text, '$' ∉ t → motive t)
    (unclosed : ∀ a inside : Text, '$' ∉ a → '$' ∉ inside → motive (a ++ '$' :: inside))
    (math : ∀ a inside t : Text, '$' ∉ a → '$' ∉ inside → motive t →
      motive (a ++ '$' :: (inside ++ '$' :: t))) (t : Text) : motive t := by
  generalize hLength : t.length = n
  induction n using Nat.strongRecOn generalizing t with
  | ind n ih =>
    by_cases hDollar : '$' ∈ t
    · obtain ⟨a, rest, rfl, ha⟩ := List.eq_append_cons_of_mem hDollar
      by_cases hClosed : '$' ∈ rest
      · obtain ⟨inside, rest, rfl, hInside⟩ := List.eq_append_cons_of_mem hClosed
        refine math a inside rest ha hInside (ih rest.length ?_ rest rfl)
        simp only [List.length_append, List.length_cons] at hLength
        omega
      · exact unclosed a rest ha hClosed
    · exact plain t hDollar

section Outside

variable {f g : Text → Text} {a inside t u v : Text}

theorem outsideMath_unclosed (ha : '$' ∉ a) (hInside : '$' ∉ inside) (f : Text → Text) :
    outsideMath f (a ++ '$' :: inside) = f a ++ '$' :: inside := by
  rw [outsideMath, List.splitOn_append_cons_self_of_not_mem ha, List.splitOn_eq_singleton hInside]
  simp [mapAlternate]

theorem outsideMath_congr (h : ∀ piece : Text, '$' ∉ piece → f piece = g piece) (t : Text) :
    outsideMath f t = outsideMath g t := by
  induction t using math_induction with
  | plain t ht => rw [outsideMath_of_not_mem f ht, outsideMath_of_not_mem g ht, h t ht]
  | unclosed a inside ha hInside =>
    rw [outsideMath_unclosed ha hInside, outsideMath_unclosed ha hInside, h a ha]
  | math a inside t ha hInside ih =>
    rw [outsideMath_math ha hInside, outsideMath_math ha hInside, h a ha, ih]

/-- Behind an even number of dollar signs a text is read as behind none. -/
theorem outsideMath_append
    (hTail : ∀ b : Text, '$' ∉ b → outsideMath g (b ++ u) = g b ++ v)
    (hEven : a.count '$' % 2 = 0) : outsideMath g (a ++ u) = outsideMath g a ++ v := by
  induction a using math_induction with
  | plain a ha => rw [hTail a ha, outsideMath_of_not_mem g ha]
  | unclosed a inside ha hInside =>
    rw [List.count_append, List.count_cons_self, List.count_eq_zero.mpr ha,
      List.count_eq_zero.mpr hInside] at hEven
    cases hEven
  | math a inside t ha hInside ih =>
    have hRest : t.count '$' % 2 = 0 := by
      rw [List.count_append, List.count_cons_self, List.count_append, List.count_cons_self,
        List.count_eq_zero.mpr ha, List.count_eq_zero.mpr hInside] at hEven
      omega
    have hText : a ++ '$' :: (inside ++ '$' :: t) ++ u =
        a ++ '$' :: (inside ++ '$' :: (t ++ u)) := by simp
    rw [hText, outsideMath_math ha hInside, outsideMath_math ha hInside, ih hRest]
    simp

theorem outsideMath_outsideMath
    (hf : ∀ piece : Text, '$' ∉ piece → (f piece).count '$' % 2 = 0) (g : Text → Text) (t : Text) :
    outsideMath g (outsideMath f t) = outsideMath (fun piece => outsideMath g (f piece)) t := by
  induction t using math_induction with
  | plain t ht => rw [outsideMath_of_not_mem f ht, outsideMath_of_not_mem _ ht]
  | unclosed a inside ha hInside =>
    rw [outsideMath_unclosed ha hInside, outsideMath_unclosed ha hInside]
    exact outsideMath_append (fun b hb => outsideMath_unclosed hb hInside g) (hf a ha)
  | math a inside t ha hInside ih =>
    rw [outsideMath_math ha hInside, outsideMath_math ha hInside, ← ih]
    exact outsideMath_append (fun b hb => outsideMath_math hb hInside g _) (hf a ha)

end Outside

/-! ## Tiles -/

/-- An arrow as it is typed. -/
def arrow : Text := ['-', '>']

/-- Whether two neighbours belong to one word or make up an arrow. -/
def sameTile (a b : Char) : Bool := isWord a && isWord b || a == '-' && b == '>'

/-- The words and the arrows of a text, and all other characters one by one. -/
def tiles (t : Text) : List Text := t.splitBy sameTile

/-- Tiles with those of a table replaced by inline mathematics. -/
def substitute (table : WordTable) (tiles : List Text) : Text :=
  tiles.flatMap fun tile => ((table.lookup tile).map inlineMath).getD tile

/-- A pass over the text outside mathematics. -/
def pass (table : WordTable) (t : Text) : Text :=
  outsideMath (fun piece => substitute table (tiles piece)) t

def arrows : WordTable := [(arrow, "\\to".toList)]

/-- What is replaced in list items. -/
def itemSigns : WordTable := arrows ++ timesWord

theorem sameTile_iff {a b : Char} :
    sameTile a b ↔ (isWord a ∧ isWord b) ∨ (a = '-' ∧ b = '>') := by
  rw [sameTile, Bool.or_eq_true, Bool.and_eq_true, Bool.and_eq_true, beq_iff_eq, beq_iff_eq]

theorem joinsWords_sameTile : JoinsWords sameTile where
  inside a b ha hb := by rw [sameTile, ha, hb]; rfl
  apart a b h := by
    rcases sameTile_iff.mp h with ⟨ha, hb⟩ | ⟨rfl, rfl⟩
    · rw [ha, hb]
    · rfl

section Substitute

variable {table : WordTable} {run : Text}

theorem substitute_append (a b : List Text) :
    substitute table (a ++ b) = substitute table a ++ substitute table b :=
  List.flatMap_append

theorem substitute_cons_some {command : Text} (h : table.lookup run = some command)
    (rest : List Text) :
    substitute table (run :: rest) = inlineMath command ++ substitute table rest := by
  rw [substitute, List.flatMap_cons, h]
  rfl

theorem substitute_cons_none (h : table.lookup run = none) (rest : List Text) :
    substitute table (run :: rest) = run ++ substitute table rest := by
  rw [substitute, List.flatMap_cons, h]
  rfl

end Substitute

theorem lookup_inlineTable (table : WordTable) (word : Text) :
    (inlineTable table).lookup word = (table.lookup word).map inlineMath := by
  induction table with
  | nil => rfl
  | cons entry table ih =>
    rw [inlineTable, List.map_cons, List.lookup_cons, List.lookup_cons, ← inlineTable, ih]
    split <;> rfl

theorem replaceWords_inlineTable {table : WordTable}
    (hTable : ∀ entry ∈ table, isWholeWord entry.1) (t : Text) :
    replaceWords (inlineTable table) none t = substitute table (tiles t) := by
  have hCut := replaceWords_cut (isWholeWord_inlineTable hTable) joinsWords_sameTile
    (cut_splitBy sameTile t) none (by simp)
  rw [List.flatten_splitBy] at hCut
  simp only [lookup_inlineTable] at hCut
  exact hCut

/-! ## Arrows and multiplication signs -/

section Item

theorem replaceEach_arrow (t : Text) :
    replaceEach (inlineTable arrows) (arrow ++ t) =
      inlineMath "\\to".toList ++ replaceEach (inlineTable arrows) t := by
  rw [arrow, List.cons_append, replaceEach]
  simp [inlineTable, arrows, arrow]

theorem replaceEach_keep {c : Char} {t : Text} (h : ¬ (c = '-' ∧ t.head? = some '>')) :
    replaceEach (inlineTable arrows) (c :: t) = c :: replaceEach (inlineTable arrows) t := by
  have hNone : arrow.isPrefixOf (c :: t) = false := by
    rw [Bool.eq_false_iff, ne_eq, List.isPrefixOf_iff_prefix]
    rintro ⟨rest, hRest⟩
    obtain ⟨rfl, rfl⟩ := List.cons.inj hRest
    exact h ⟨rfl, rfl⟩
  rw [replaceEach]
  simp [inlineTable, arrows, hNone]

/-- No arrow begins in another tile. -/
theorem replaceEach_run {run t : Text} (hChain : run.IsChain fun a b => sameTile a b)
    (hArrow : run ≠ arrow) (hEnd : ∀ a ∈ run.getLast?, ∀ b ∈ t.head?, sameTile a b = false) :
    replaceEach (inlineTable arrows) (run ++ t) =
      run ++ replaceEach (inlineTable arrows) t := by
  induction run with
  | nil => rfl
  | cons c run ih =>
    cases run with
    | nil =>
      refine replaceEach_keep ?_
      rintro ⟨rfl, hHead⟩
      cases hEnd '-' rfl '>' hHead
    | cons d run =>
      obtain ⟨hFirst, hTail⟩ := List.isChain_cons_cons.mp hChain
      rcases sameTile_iff.mp hFirst with ⟨hc, hd⟩ | ⟨rfl, rfl⟩
      · have hKeep : ¬ (c = '-' ∧ ((d :: run) ++ t).head? = some '>') := by
          rintro ⟨rfl, _⟩
          cases hc
        have hRest : d :: run ≠ arrow := by
          rintro hSame
          obtain ⟨rfl, _⟩ := List.cons.inj hSame
          cases hd
        rw [List.cons_append, replaceEach_keep hKeep, ih hTail hRest hEnd]
        rfl
      · -- nothing can follow in the tile
        cases run with
        | nil => exact absurd rfl hArrow
        | cons e run => cases (List.isChain_cons_cons.mp hTail).1

variable {run : Text} {runs : List Text}

theorem lookup_arrows_of_ne (h : run ≠ arrow) : arrows.lookup run = none := by
  simpa [arrows] using h

theorem replaceEach_cut (h : Cut sameTile runs) :
    replaceEach (inlineTable arrows) runs.flatten = substitute arrows runs := by
  induction h with
  | nil => rw [List.flatten_nil, replaceEach]; rfl
  | @cons run rest _ hChain hEnd _ ih =>
    rw [List.flatten_cons]
    by_cases hArrow : run = arrow
    · rw [hArrow, replaceEach_arrow, ih]
      rfl
    · rw [replaceEach_run hChain hArrow hEnd, ih, substitute_cons_none (lookup_arrows_of_ne hArrow)]

theorem sameTile_dollar (c : Char) : sameTile c '$' = false ∧ sameTile '$' c = false := by
  simp [sameTile, show isWord '$' = false from rfl]

/-- In front of a tile stands what stood there before, or a dollar sign. -/
theorem head?_substitute (h : Cut sameTile runs) {c : Char}
    (hc : c ∈ (substitute arrows runs).head?) : c = '$' ∨ c ∈ runs.flatten.head? := by
  cases h with
  | nil => cases hc
  | @cons run rest hSome _ _ _ =>
    by_cases hArrow : run = arrow
    · rw [hArrow] at hc
      cases hc
      exact Or.inl rfl
    · rw [substitute_cons_none (lookup_arrows_of_ne hArrow),
        List.head?_append_of_ne_nil _ hSome] at hc
      rw [List.flatten_cons, List.head?_append_of_ne_nil _ hSome]
      exact Or.inr hc

theorem replaceWords_substitute (h : Cut sameTile runs) (before : Option Char)
    (hBefore : ∀ a ∈ before, ∀ b ∈ runs.flatten.head?, sameTile a b = false) :
    replaceWords (inlineTable timesWord) before (substitute arrows runs) =
      substitute itemSigns runs := by
  have hTimes : ∀ entry ∈ inlineTable timesWord, isWholeWord entry.1 :=
    List.all_iff_forall_prop.mp (by decide)
  induction h generalizing before with
  | nil => rw [substitute, List.flatMap_nil, replaceWords]; rfl
  | @cons run rest hSome hChain hEnd hRest ih =>
    by_cases hArrow : run = arrow
    · have hNext : ∀ a ∈ some '$', ∀ b ∈ rest.flatten.head?, sameTile a b = false := by
        intro a ha b _
        cases ha
        exact (sameTile_dollar b).2
      have hLast : (inlineMath "\\to".toList).getLast?.or before = some '$' := rfl
      have hCommand : itemSigns.lookup arrow = some "\\to".toList := rfl
      rw [hArrow, substitute_cons_some (rfl : arrows.lookup arrow = some "\\to".toList),
        replaceWords_times_append (a := inlineMath "\\to".toList) (by decide), hLast,
        ih (some '$') hNext, substitute_cons_some hCommand]
    · rw [List.flatten_cons, List.head?_append_of_ne_nil _ hSome] at hBefore
      have hAfter : ∀ a ∈ run.getLast?, ∀ b ∈ (substitute arrows rest).head?,
          sameTile a b = false := by
        intro a ha b hb
        rcases head?_substitute hRest hb with rfl | hb
        · exact (sameTile_dollar a).1
        · exact hEnd a ha b hb
      have hLookup : itemSigns.lookup run = timesWord.lookup run := by
        rw [itemSigns, List.lookup_append, lookup_arrows_of_ne hArrow, Option.none_or]
      rw [substitute_cons_none (lookup_arrows_of_ne hArrow),
        replaceWords_run hTimes joinsWords_sameTile hSome hChain hBefore hAfter, ih _ hEnd,
        lookup_inlineTable, ← hLookup]
      rfl

end Item

/-! ## Two passes -/

theorem textSymbols_eq_pass (t : Text) : textSymbols t = pass (greek ++ proseWords) t := by
  rw [textSymbols, pass]
  exact congrArg (outsideMath · t) (funext (replaceWords_inlineTable isWholeWord_symbols))

theorem itemSymbols_eq_pass (t : Text) : itemSymbols t = pass itemSigns t := by
  rw [itemSymbols, pass]
  refine congrArg (outsideMath · t) (funext fun piece => ?_)
  have hCut : Cut sameTile (tiles piece) := cut_splitBy sameTile piece
  have hArrows := replaceEach_cut hCut
  rw [tiles, List.flatten_splitBy, ← tiles] at hArrows
  have hTimes := replaceWords_substitute hCut none (by simp)
  rw [← hArrows] at hTimes
  exact hTimes

section Pass

variable {table other : WordTable} (hTable : ∀ entry ∈ table, '$' ∉ entry.2)

include hTable

theorem dollar_not_mem_of_lookup {word command : Text} (h : table.lookup word = some command) :
    '$' ∉ command := by
  obtain ⟨front, back, rfl, _⟩ := List.lookup_eq_some_iff.mp h
  exact hTable (word, command) (by simp)

/-- Symbols bring dollar signs in pairs. -/
theorem count_substitute {runs : List Text} (hRuns : '$' ∉ runs.flatten) :
    (substitute table runs).count '$' % 2 = 0 := by
  induction runs with
  | nil => rfl
  | cons run rest ih =>
    rw [List.flatten_cons, List.mem_append, not_or] at hRuns
    cases hLookup : table.lookup run with
    | none =>
      rw [substitute_cons_none hLookup, List.count_append, List.count_eq_zero.mpr hRuns.1,
        Nat.zero_add, ih hRuns.2]
    | some command =>
      have hCommand := dollar_not_mem_of_lookup hTable hLookup
      have hRest := ih hRuns.2
      rw [substitute_cons_some hLookup, inlineMath_append, List.count_cons_self, List.count_append,
        List.count_cons_self, List.count_eq_zero.mpr hCommand]
      omega

/-- Between the symbols of the first pass there are tiles for the second one. -/
theorem pass_substitute (passed : List Text) {runs : List Text}
    (hCut : Cut sameTile (passed ++ runs)) (hDollar : '$' ∉ (passed ++ runs).flatten) :
    pass other (passed.flatten ++ substitute table runs) =
      substitute other passed ++ substitute (table ++ other) runs := by
  -- `passed` are the tiles since the last symbol
  induction runs generalizing passed with
  | nil =>
    rw [List.append_nil] at hCut hDollar
    rw [substitute, List.flatMap_nil, List.append_nil, pass, outsideMath_of_not_mem _ hDollar, tiles,
      hCut.splitBy_flatten, substitute, substitute, List.flatMap_nil, List.append_nil]
  | cons run rest ih =>
    rw [List.append_cons] at hCut hDollar
    cases hLookup : table.lookup run with
    | none =>
      have hText : passed.flatten ++ substitute table (run :: rest) =
          (passed ++ [run]).flatten ++ substitute table rest := by
        rw [substitute_cons_none hLookup]
        simp
      have hTile : substitute (table ++ other) (run :: rest) =
          substitute other [run] ++ substitute (table ++ other) rest := by
        simp [substitute, List.lookup_append, hLookup]
      rw [hText, ih _ hCut hDollar, hTile, substitute_append, List.append_assoc]
    | some command =>
      have hBoth : (table ++ other).lookup run = some command := by
        rw [List.lookup_append, hLookup]
        rfl
      have hCommand := dollar_not_mem_of_lookup hTable hLookup
      rw [List.flatten_append, List.mem_append, not_or] at hDollar
      have hPassed : '$' ∉ passed.flatten := by
        intro hMem
        exact hDollar.1 (by simp [List.flatten_append, hMem])
      have hRest := ih [] hCut.right hDollar.2
      rw [substitute_cons_some hLookup, substitute_cons_some hBoth, inlineMath_append,
        inlineMath_append, pass, outsideMath_math hPassed hCommand, tiles,
        hCut.left.left.splitBy_flatten, ← pass]
      rw [List.flatten_nil, List.nil_append] at hRest
      rw [hRest]
      rfl

theorem pass_pass (t : Text) : pass other (pass table t) = pass (table ++ other) t := by
  have hPiece {piece : Text} (h : '$' ∉ piece) :
      '$' ∉ (tiles piece).flatten := by rwa [tiles, List.flatten_splitBy]
  rw [pass, pass, outsideMath_outsideMath fun piece h => count_substitute hTable (hPiece h), pass]
  refine outsideMath_congr (fun piece h => ?_) t
  exact pass_substitute hTable [] (cut_splitBy sameTile piece) (hPiece h)

end Pass

theorem pass_of_lookup {table other : WordTable} (h : ∀ word, table.lookup word = other.lookup word)
    (t : Text) : pass table t = pass other t := by
  simp only [pass, substitute, h]

theorem pass_append_self (table : WordTable) (t : Text) :
    pass (table ++ table) t = pass table t := by
  refine pass_of_lookup (fun word => ?_) t
  rw [List.lookup_append, Option.or_self]

theorem pass_append_comm {table other : WordTable}
    (h : ∀ entry ∈ table, other.lookup entry.1 = none) (t : Text) :
    pass (table ++ other) t = pass (other ++ table) t := by
  refine pass_of_lookup (fun word => ?_) t
  rw [List.lookup_append, List.lookup_append]
  cases hLookup : table.lookup word with
  | none => rw [Option.none_or, Option.or_none]
  | some command =>
    obtain ⟨front, back, rfl, _⟩ := List.lookup_eq_some_iff.mp hLookup
    have hOther := h (word, command) (by simp)
    dsimp only at hOther
    rw [hOther]
    rfl

theorem dollar_not_mem_commands {entry : Text × Text}
    (h : entry ∈ greek ++ proseWords ++ itemSigns) : '$' ∉ entry.2 := by
  have hCommand : entry.2 ∈ symbolCommands := by
    have hMem := List.mem_map_of_mem (f := Prod.snd) h
    rwa [List.map_append] at hMem
  exact (forall_isPlain_iff.mp (isPlain_symbolCommands _ hCommand)).1

/-- The passes over prose can be repeated and exchanged, however many dollar signs a text has. -/
theorem symbols_idempotent_commute (t : Text) :
    textSymbols (textSymbols t) = textSymbols t ∧ itemSymbols (itemSymbols t) = itemSymbols t ∧
      itemSymbols (textSymbols t) = textSymbols (itemSymbols t) := by
  have hSymbols : ∀ entry ∈ greek ++ proseWords, '$' ∉ entry.2 :=
    fun entry hEntry => dollar_not_mem_commands (List.mem_append_left _ hEntry)
  have hItems : ∀ entry ∈ itemSigns, '$' ∉ entry.2 :=
    fun entry hEntry => dollar_not_mem_commands (List.mem_append_right _ hEntry)
  have hDisjoint : ∀ entry ∈ itemSigns, (greek ++ proseWords).lookup entry.1 = none :=
    List.all_iff_forall_prop.mp (by decide)
  simp only [textSymbols_eq_pass, itemSymbols_eq_pass]
  refine ⟨?_, ?_, ?_⟩
  · rw [pass_pass hSymbols, pass_append_self]
  · rw [pass_pass hItems, pass_append_self]
  · rw [pass_pass hSymbols, pass_pass hItems, pass_append_comm hDisjoint]

end ProseMath.Latex
