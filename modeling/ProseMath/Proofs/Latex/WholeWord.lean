import Mathlib.Data.Bool.AllAny
import Mathlib.Data.List.Perm.Basic
import Mathlib.Tactic.Common
import ProseMath.Latex.Symbol
import ProseMath.Proofs.Text.Run

/-!
# Whole words

Words of a table are looked for at every place of a text, entry by entry, and one word can be the
beginning or the end of another. All the same only whole words are found, that is longest runs of
word characters, and so the order of the entries does not matter.

* `startsWithWord_iff`: at the beginning of a word only this word as a whole is found.
* `replaceWords_run`: a run of characters is replaced as a whole or kept.
* `replaceWords_cut`: replacing words replaces runs.
* `lookup_of_perm`: the order of a table does not matter.
* `symbols_whole_words`: names of letters and words for symbols are replaced as whole words.
-/

namespace ProseMath.Latex

open Text

/-! ## Words, run by run -/

/-- Whether two neighbours belong to one word. -/
def sameWord (a b : Char) : Bool := isWord a && isWord b

/-- The words of a text, which are its longest runs of word characters, and all other characters
one by one. -/
def wordRuns (t : Text) : List Text := t.splitBy sameWord

/-- A text with the words of a table replaced. -/
def substituteWords (table : WordTable) (t : Text) : Text :=
  (wordRuns t).flatMap fun run => (table.lookup run).getD run

/-- A function applied to the pieces between dollar signs that have an even index. -/
def atEvenPieces (f : Text → Text) (t : Text) : Text :=
  ['$'].intercalate ((t.splitOn '$').mapIdx fun index piece =>
    if index % 2 = 0 then f piece else piece)

/-- A text that is a word. -/
def isWholeWord (t : Text) : Bool := !t.isEmpty && t.all isWord

/-- A relation between neighbours whose runs have the words of a text among them. -/
structure JoinsWords (r : Char → Char → Bool) : Prop where
  inside : ∀ a b, isWord a → isWord b → r a b
  apart : ∀ a b, r a b → isWord a = isWord b

theorem joinsWords_sameWord : JoinsWords sameWord where
  inside a b ha hb := by rw [sameWord, ha, hb]; rfl
  apart a b h := by
    obtain ⟨ha, hb⟩ := Bool.and_eq_true_iff.mp h
    rw [ha, hb]

theorem isWholeWord_iff {t : Text} : isWholeWord t ↔ t ≠ [] ∧ ∀ c ∈ t, isWord c := by
  simp [isWholeWord]

/-- A run is a word or has no word character. -/
theorem JoinsWords.run_cases {r : Char → Char → Bool} (hr : JoinsWords r) {run : Text}
    (hSome : run ≠ []) (hChain : run.IsChain fun a b => r a b) :
    isWholeWord run ∨ ∀ c ∈ run, isWord c = false := by
  rw [isWholeWord_iff]
  induction run with
  | nil => exact absurd rfl hSome
  | cons c run ih =>
    cases run with
    | nil => cases hc : isWord c <;> simp [hc]
    | cons d run =>
      obtain ⟨hFirst, hChain⟩ := List.isChain_cons_cons.mp hChain
      have hSame := hr.apart c d hFirst
      rcases ih (by simp) hChain with ⟨_, hWord⟩ | hOther
      · have hd := hWord d List.mem_cons_self
        exact Or.inl ⟨by simp, List.forall_mem_cons.mpr ⟨hSame.trans hd, hWord⟩⟩
      · have hd := hOther d List.mem_cons_self
        exact Or.inr (List.forall_mem_cons.mpr ⟨hSame.trans hd, hOther⟩)

/-! ## Searching a text -/

section Search

variable {table : WordTable} {before : Option Char} {t : Text}

theorem any_isWord_head? {word : Text} (h : isWholeWord word) (t : Text) :
    (word ++ t).head?.any isWord := by
  obtain ⟨hSome, hWord⟩ := isWholeWord_iff.mp h
  rw [List.head?_append_of_ne_nil _ hSome, List.head?_eq_some_head hSome]
  exact hWord _ (List.head_mem hSome)

theorem any_isWord_getLast? {word : Text} (h : isWholeWord word) : word.getLast?.any isWord := by
  obtain ⟨hSome, hWord⟩ := isWholeWord_iff.mp h
  rw [List.getLast?_eq_some_getLast hSome]
  exact hWord _ (List.getLast_mem hSome)

theorem startsWithWord_iff {key run : Text} (hKey : isWholeWord key) (hRun : isWholeWord run)
    (hBefore : before.any isWord = false) (hAfter : t.head?.any isWord = false) :
    startsWithWord key before (run ++ t) ↔ key = run := by
  constructor
  · intro h
    simp only [startsWithWord, Bool.and_eq_true, List.isPrefixOf_iff_prefix] at h
    obtain ⟨⟨_, hKeyPrefix⟩, hEnd⟩ := h
    rcases List.prefix_or_prefix_of_prefix hKeyPrefix (List.prefix_append run t) with hPiece | hPiece
    · -- behind a shorter key the word goes on
      obtain ⟨tail, rfl⟩ := hPiece
      cases tail with
      | nil => rw [List.append_nil]
      | cons c tail =>
        have hc : isWord c := (isWholeWord_iff.mp hRun).2 c (by simp)
        rw [List.append_assoc, List.drop_left, isBoundary, any_isWord_getLast? hKey] at hEnd
        simp [hc] at hEnd
    · -- a longer key goes on behind the word
      obtain ⟨tail, rfl⟩ := hPiece
      cases tail with
      | nil => rw [List.append_nil]
      | cons c tail =>
        have hc : isWord c := (isWholeWord_iff.mp hKey).2 c (by simp)
        obtain ⟨rest, rfl⟩ := (List.prefix_append_right_inj run).mp hKeyPrefix
        simp [hc] at hAfter
  · rintro rfl
    simp only [startsWithWord, isBoundary, hBefore, any_isWord_head? hKey, any_isWord_getLast? hKey,
      List.drop_left, hAfter, Bool.and_eq_true, List.isPrefixOf_iff_prefix]
    exact ⟨⟨rfl, List.prefix_append _ _⟩, rfl⟩

theorem replaceWords_skip {c : Char}
    (h : ∀ entry ∈ table, startsWithWord entry.1 before (c :: t) = false) :
    replaceWords table before (c :: t) = c :: replaceWords table (some c) t := by
  have hNone : table.find? (fun entry => startsWithWord entry.1 before (c :: t)) = none := by
    rw [List.find?_eq_none]
    intro entry hEntry
    rw [h entry hEntry]
    exact Bool.false_ne_true
  rw [replaceWords, hNone]

/-- Where no entry begins, a text is kept. -/
theorem replaceWords_append {a : Text}
    (h : ∀ entry ∈ table, ∃ first word, entry.1 = first :: word ∧ first ∉ a)
    (before : Option Char) (t : Text) :
    replaceWords table before (a ++ t) = a ++ replaceWords table (a.getLast?.or before) t := by
  induction a generalizing before with
  | nil => rfl
  | cons c a ih =>
    have hSkip : ∀ entry ∈ table, startsWithWord entry.1 before (c :: (a ++ t)) = false := by
      intro entry hEntry
      obtain ⟨first, word, hKey, hNot⟩ := h entry hEntry
      simp [startsWithWord, hKey, (List.ne_of_not_mem_cons hNot)]
    have hRest : ∀ entry ∈ table, ∃ first word, entry.1 = first :: word ∧ first ∉ a := by
      intro entry hEntry
      obtain ⟨first, word, hKey, hNot⟩ := h entry hEntry
      exact ⟨first, word, hKey, List.not_mem_of_not_mem_cons hNot⟩
    have hLast : (c :: a).getLast?.or before = a.getLast?.or (some c) := by
      rw [List.getLast?_cons]
      cases a.getLast? <;> rfl
    rw [List.cons_append, replaceWords_skip hSkip, ih hRest, hLast, List.cons_append]

/-- No word begins inside a word. -/
theorem replaceWords_inside {word : Text} (hWord : ∀ c ∈ word, isWord c) {d : Char}
    (hd : isWord d) (t : Text) :
    replaceWords table (some d) (word ++ t) =
      word ++ replaceWords table (d :: word).getLast? t := by
  induction word generalizing d with
  | nil => rfl
  | cons c word ih =>
    obtain ⟨hc, hWord⟩ := List.forall_mem_cons.mp hWord
    have hSkip : ∀ entry ∈ table,
        startsWithWord entry.1 (some d) (c :: (word ++ t)) = false := by
      intro entry _
      simp [startsWithWord, isBoundary, hc, hd]
    rw [List.cons_append, replaceWords_skip hSkip, ih hWord hc, List.getLast?_cons_cons]
    rfl

variable (hTable : ∀ entry ∈ table, isWholeWord entry.1)

include hTable

/-- A word is replaced as a whole or kept. -/
theorem replaceWords_word {run : Text} (hRun : isWholeWord run)
    (hBefore : before.any isWord = false) (hAfter : t.head?.any isWord = false) :
    replaceWords table before (run ++ t) =
      (table.lookup run).getD run ++ replaceWords table run.getLast? t := by
  have hStarts {entry : Text × Text} (hEntry : entry ∈ table) :
      startsWithWord entry.1 before (run ++ t) ↔ entry.1 = run :=
    startsWithWord_iff (hTable entry hEntry) hRun hBefore hAfter
  obtain ⟨hSome, hWord⟩ := isWholeWord_iff.mp hRun
  obtain ⟨c, word, rfl⟩ := List.exists_cons_of_ne_nil hSome
  cases hLookup : table.lookup (c :: word) with
  | none =>
    have hSkip : ∀ entry ∈ table,
        startsWithWord entry.1 before (c :: (word ++ t)) = false := by
      intro entry hEntry
      rw [Bool.eq_false_iff]
      intro hFound
      have hOther := List.lookup_eq_none_iff.mp hLookup entry hEntry
      rw [(hStarts hEntry).mp hFound] at hOther
      simp at hOther
    obtain ⟨hc, hWord⟩ := List.forall_mem_cons.mp hWord
    rw [List.cons_append, replaceWords_skip hSkip, replaceWords_inside hWord hc]
    rfl
  | some new =>
    obtain ⟨front, back, rfl, hFront⟩ := List.lookup_eq_some_iff.mp hLookup
    have hFound : (front ++ (c :: word, new) :: back).find?
        (fun entry => startsWithWord entry.1 before (c :: (word ++ t))) =
          some (c :: word, new) := by
      refine List.find?_eq_some_iff_append.mpr ⟨?_, front, back, rfl, ?_⟩
      · exact (hStarts (by simp)).mpr rfl
      · intro entry hEntry
        rw [Bool.not_eq_true', Bool.eq_false_iff]
        intro hOther
        have hKey := hFront entry hEntry
        rw [(hStarts (List.mem_append_left _ hEntry)).mp hOther] at hKey
        simp at hKey
    rw [List.cons_append, replaceWords, hFound]
    simp

variable {r : Char → Char → Bool} (hr : JoinsWords r)

include hr

/-- A run is replaced as a whole or kept. -/
theorem replaceWords_run {run : Text} (hSome : run ≠ []) (hChain : run.IsChain fun a b => r a b)
    (hBefore : ∀ a ∈ before, ∀ b ∈ run.head?, r a b = false)
    (hAfter : ∀ a ∈ run.getLast?, ∀ b ∈ t.head?, r a b = false) :
    replaceWords table before (run ++ t) =
      (table.lookup run).getD run ++ replaceWords table run.getLast? t := by
  have hApart {a b : Char} (hNot : r a b = false) : isWord a = false ∨ isWord b = false := by
    by_contra! hBoth
    rw [Bool.ne_false_iff, Bool.ne_false_iff] at hBoth
    rw [hr.inside a b hBoth.1 hBoth.2] at hNot
    cases hNot
  rcases hr.run_cases hSome hChain with hWord | hOther
  · obtain ⟨_, hChars⟩ := isWholeWord_iff.mp hWord
    apply replaceWords_word hTable hWord
    · rw [Option.any_eq_false]
      intro a ha
      have hFirst := hApart (hBefore a ha _ (List.head?_eq_some_head hSome))
      rw [hChars _ (List.head_mem hSome)] at hFirst
      simpa using hFirst
    · rw [Option.any_eq_false]
      intro b hb
      have hLast := hApart (hAfter _ (List.getLast?_eq_some_getLast hSome) b hb)
      rw [hChars _ (List.getLast_mem hSome)] at hLast
      simpa using hLast
  · have hKept : ∀ entry ∈ table, ∃ first word, entry.1 = first :: word ∧ first ∉ run := by
      intro entry hEntry
      obtain ⟨hKey, hChars⟩ := isWholeWord_iff.mp (hTable entry hEntry)
      obtain ⟨first, word, hFirst⟩ := List.exists_cons_of_ne_nil hKey
      refine ⟨first, word, hFirst, fun hMem => ?_⟩
      have hChar := hChars first (by simp [hFirst])
      rw [hOther first hMem] at hChar
      cases hChar
    have hNone : table.lookup run = none := by
      rw [List.lookup_eq_none_iff]
      intro entry hEntry
      rw [bne_iff_ne]
      rintro rfl
      obtain ⟨first, word, hFirst, hNot⟩ := hKept entry hEntry
      exact hNot (by simp [hFirst])
    rw [replaceWords_append hKept, hNone, List.getLast?_eq_some_getLast hSome]
    rfl

theorem replaceWords_cut {runs : List Text} (h : Cut r runs) (before : Option Char)
    (hBefore : ∀ a ∈ before, ∀ b ∈ runs.flatten.head?, r a b = false) :
    replaceWords table before runs.flatten =
      runs.flatMap fun run => (table.lookup run).getD run := by
  induction h generalizing before with
  | nil => rw [List.flatten_nil, replaceWords]; rfl
  | cons hSome hChain hEnd _ ih =>
    rw [List.flatten_cons, List.head?_append_of_ne_nil _ hSome] at hBefore
    rw [List.flatten_cons, replaceWords_run hTable hr hSome hChain hBefore hEnd, ih _ hEnd,
      List.flatMap_cons]

end Search

/-! ## The order of a table -/

section Order

variable {table order : WordTable}

theorem lookup_eq_some_iff_mem (hKeys : (table.map Prod.fst).Nodup) {word new : Text} :
    table.lookup word = some new ↔ (word, new) ∈ table := by
  rw [List.lookup_eq_some_iff]
  constructor
  · rintro ⟨front, back, rfl, _⟩
    simp
  · intro hMem
    obtain ⟨front, back, rfl⟩ := List.append_of_mem hMem
    refine ⟨front, back, rfl, ?_⟩
    intro entry hEntry
    rw [List.map_append, List.map_cons, List.nodup_append] at hKeys
    have hOther := hKeys.2.2 entry.1 (List.mem_map_of_mem hEntry) word List.mem_cons_self
    simpa using hOther.symm

/-- Of words that are all different each has its own entry. -/
theorem lookup_of_perm (hPerm : order.Perm table) (hKeys : (table.map Prod.fst).Nodup)
    (word : Text) : order.lookup word = table.lookup word := by
  have hOrder : (order.map Prod.fst).Nodup := (hPerm.map Prod.fst).nodup_iff.mpr hKeys
  apply Option.ext
  intro new
  rw [lookup_eq_some_iff_mem hOrder, lookup_eq_some_iff_mem hKeys, hPerm.mem_iff]

theorem replaceWords_eq_substituteWords (hTable : ∀ entry ∈ table, isWholeWord entry.1)
    (t : Text) : replaceWords table none t = substituteWords table t := by
  have hCut :=
    replaceWords_cut hTable joinsWords_sameWord (cut_splitBy sameWord t) none (by simp)
  rwa [List.flatten_splitBy] at hCut

theorem replaceWords_of_perm (hPerm : order.Perm table) (hKeys : (table.map Prod.fst).Nodup)
    (hTable : ∀ entry ∈ table, isWholeWord entry.1) (t : Text) :
    replaceWords order none t = substituteWords table t := by
  have hOrder : ∀ entry ∈ order, isWholeWord entry.1 :=
    fun entry hEntry => hTable entry (hPerm.mem_iff.mp hEntry)
  rw [replaceWords_eq_substituteWords hOrder, substituteWords, substituteWords]
  simp only [lookup_of_perm hPerm hKeys]

end Order

/-! ## Pieces outside mathematics -/

theorem mapAlternate_eq_mapIdx (f : Text → Text) (pieces : List Text) :
    mapAlternate f pieces =
      pieces.mapIdx fun index piece => if index % 2 = 0 then f piece else piece := by
  fun_induction mapAlternate f pieces with
  | case1 => rfl
  | case2 outside => rfl
  | case3 outside inside rest ih =>
    have hLater : (fun index piece => if (index + 1 + 1) % 2 = 0 then f piece else piece) =
        fun index piece => if index % 2 = 0 then f piece else piece := by
      funext index piece
      rw [Nat.add_assoc, Nat.add_mod_right]
    rw [ih, List.mapIdx_cons, List.mapIdx_cons, hLater]
    rfl

theorem outsideMath_eq_atEvenPieces (f : Text → Text) (t : Text) :
    outsideMath f t = atEvenPieces f t := by
  rw [outsideMath, mapAlternate_eq_mapIdx, atEvenPieces]

/-! ## The tables of symbols -/

/-- All words of prose that stand for symbols. -/
theorem isWholeWord_symbols : ∀ entry ∈ greek ++ proseWords, isWholeWord entry.1 :=
  List.all_iff_forall_prop.mp (by decide)

theorem nodup_symbols : ((greek ++ proseWords).map Prod.fst).Nodup := by decide

theorem keys_inlineTable (table : WordTable) :
    (inlineTable table).map Prod.fst = table.map Prod.fst := by
  rw [inlineTable, List.map_map]
  rfl

theorem isWholeWord_inlineTable {table : WordTable}
    (hTable : ∀ entry ∈ table, isWholeWord entry.1) :
    ∀ entry ∈ inlineTable table, isWholeWord entry.1 := by
  intro entry hEntry
  obtain ⟨source, hSource, rfl⟩ := List.mem_map.mp hEntry
  exact hTable source hSource

/-- Names of letters are replaced exactly where they are whole words, and so are words for symbols
in the pieces of prose outside mathematics. It does not matter in which order they are looked
for. -/
theorem symbols_whole_words (t : Text) :
    (mathSymbols t = substituteWords greek t ∧
      ∀ order, order.Perm greek → replaceWords order none t = mathSymbols t) ∧
    (textSymbols t = atEvenPieces (substituteWords (inlineTable (greek ++ proseWords))) t ∧
      ∀ order, order.Perm (greek ++ proseWords) →
        outsideMath (replaceWords (inlineTable order) none) t = textSymbols t) := by
  have hGreek : ∀ entry ∈ greek, isWholeWord entry.1 :=
    fun entry hEntry => isWholeWord_symbols entry (List.mem_append_left _ hEntry)
  have hNames : (greek.map Prod.fst).Nodup := by
    have hAll := nodup_symbols
    rw [List.map_append] at hAll
    exact (List.nodup_append.mp hAll).1
  have hMath : mathSymbols t = substituteWords greek t := replaceWords_eq_substituteWords hGreek t
  have hInline := isWholeWord_inlineTable isWholeWord_symbols
  have hWords : ((inlineTable (greek ++ proseWords)).map Prod.fst).Nodup := by
    rw [keys_inlineTable]
    exact nodup_symbols
  have hText (order : WordTable) (hOrder : order.Perm (greek ++ proseWords)) :
      replaceWords (inlineTable order) none =
        substituteWords (inlineTable (greek ++ proseWords)) :=
    funext fun piece => replaceWords_of_perm (hOrder.map _) hWords hInline piece
  refine ⟨⟨hMath, ?_⟩, ?_, ?_⟩
  · intro order hOrder
    rw [hMath, replaceWords_of_perm hOrder hNames hGreek]
  · rw [textSymbols, hText _ (List.Perm.refl _), outsideMath_eq_atEvenPieces]
  · intro order hOrder
    rw [textSymbols, hText order hOrder, hText _ (List.Perm.refl _)]

/-- Read backwards, the table has `eta` in front of `theta` and `beta`. -/
theorem symbols_whole_words_backwards :
    replaceWords greek.reverse none "eta beta_1, theta".toList =
        "\\eta beta_1, \\theta".toList ∧
      outsideMath (replaceWords (inlineTable (greek ++ proseWords).reverse) none)
        "eta beta_1, theta$eta$element".toList =
          "$\\eta$ beta_1, $\\theta$$eta$$\\in$".toList := by
  obtain ⟨⟨hMath, hNames⟩, _⟩ := symbols_whole_words "eta beta_1, theta".toList
  obtain ⟨_, hText, hWords⟩ := symbols_whole_words "eta beta_1, theta$eta$element".toList
  constructor
  · rw [hNames _ (List.reverse_perm greek), hMath]
    decide +kernel
  · rw [hWords _ (List.reverse_perm (greek ++ proseWords)), hText]
    decide +kernel

end ProseMath.Latex
