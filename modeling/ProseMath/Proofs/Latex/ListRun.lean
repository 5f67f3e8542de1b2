import Mathlib.Data.List.SplitBy
import Mathlib.Tactic.Common
import ProseMath.Proofs.Latex.Paragraph

/-!
# Lists, run by run

Lines are laid out one by one: text waits until its run ends, while the first and the last line of a
list are written at once. What comes out can be said run by run. The lines that are not blank are
cut into the longest runs of items and of text, which take turns; each run of items is one list, and
each run of text is written with explicit breaks.

* `ListLayout.foldl_item`, `ListLayout.foldl_text`: the layout of one run.
* `alternates_splitBy`: the longest runs of lines take turns.
* `ListLayout.written_foldl`: the layout of all runs.
* `list_run_by_run`: lists and paragraphs.
-/

namespace ProseMath.Latex

open Text

/-! ## Runs of lines -/

/-- Whether two lines are of one sort, both items or both text. -/
def sameSort (a b : Text) : Bool := isItem a == isItem b

/-- A run of items as a list with a line for each of them, or a run of text with explicit
breaks. -/
def layoutRun (run : List Text) : Text :=
  if run.all isItem then
    "\\begin\x7bitemize\x7d\n".toList ++
      run.flatMap (fun line => "  \\item ".toList ++
        escapeBraces (itemSymbols (textSymbols (trim line.tail))) ++ ['\n']) ++
      "\\end\x7bitemize\x7d\n".toList
  else joinLines (run.map fun line => escapeBraces (textSymbols line))

/-- The longest runs of the lines that are not blank, one behind another. -/
def layoutRuns (lines : List Text) : Text :=
  (((lines.map trim).filter fun line => !line.isEmpty).splitBy sameSort).flatMap layoutRun ++ ['\n']

/-- A line that is trimmed and not blank. -/
structure IsKept (line : Text) : Prop where
  trim_eq : trim line = line
  ne_nil : line ≠ []

/-- Runs of items and of text in turn; `items` tells the sort of the first one. -/
inductive Alternates : Bool → List (List Text) → Prop
  | nil (items : Bool) : Alternates items []
  | cons {items : Bool} {run : List Text} {rest : List (List Text)} (hSome : run ≠ [])
    (hSort : ∀ line ∈ run, isItem line = items) (hRest : Alternates (!items) rest) :
    Alternates items (run :: rest)

theorem isItem_of_chain {line : Text} {run : List Text}
    (h : (line :: run).IsChain fun a b => sameSort a b) :
    ∀ other ∈ line :: run, isItem other = isItem line := by
  induction run generalizing line with
  | nil => simp
  | cons next run ih =>
    obtain ⟨hFirst, hChain⟩ := List.isChain_cons_cons.mp h
    have hSame : isItem line = isItem next := by simpa [sameSort] using hFirst
    rw [List.forall_mem_cons, hSame]
    exact ⟨rfl, ih hChain⟩

theorem alternates_splitBy (lines : List Text) :
    ∃ items, Alternates items (lines.splitBy sameSort) := by
  obtain ⟨_, hNil, hChains, hEnds⟩ := List.splitBy_eq_iff.mp (Eq.refl (lines.splitBy sameSort))
  generalize lines.splitBy sameSort = runs at hNil hChains hEnds
  induction runs with
  | nil => exact ⟨true, .nil true⟩
  | cons run rest ih =>
    obtain ⟨hChain, hLater⟩ := List.forall_mem_cons.mp hChains
    rw [List.mem_cons, not_or] at hNil
    obtain ⟨line, run, rfl⟩ := List.exists_cons_of_ne_nil (Ne.symm hNil.1)
    have hSort := isItem_of_chain hChain
    refine ⟨isItem line, .cons (List.cons_ne_nil _ _) hSort ?_⟩
    obtain ⟨items, hRest⟩ := ih hNil.2 hLater hEnds.tail
    cases hRest with
    | nil => exact .nil _
    | cons hSome hNext hRest =>
      -- the last line of a run and the first one behind it are of different sorts
      obtain ⟨⟨_, _, hApart⟩, _⟩ := List.isChain_cons_cons.mp hEnds
      rw [sameSort, hSort _ (List.getLast_mem _), hNext _ (List.head_mem _)] at hApart
      have hTurn : items = !isItem line := by
        revert hApart
        cases isItem line <;> cases items <;> simp
      rw [← hTurn]
      exact .cons hSome hNext hRest

theorem not_all_isItem {run : List Text} (hSome : run ≠ [])
    (hText : ∀ line ∈ run, isItem line = false) : ¬ run.all isItem := by
  obtain ⟨line, hLine⟩ := List.exists_mem_of_ne_nil run hSome
  rw [List.all_eq_true]
  intro hAll
  cases (hAll line hLine).symm.trans (hText line hLine)

/-! ## The layout of a run -/

theorem layoutRun_of_items {run : List Text} (h : ∀ line ∈ run, isItem line) :
    layoutRun run = listBegin ++ run.flatMap (fun line => itemLine line.tail) ++ listEnd :=
  if_pos (List.all_eq_true.mpr h)

theorem layoutRun_of_text {run : List Text} (hSome : run ≠ [])
    (h : ∀ line ∈ run, isItem line = false) : layoutRun run = joinLines (run.map proseLine) :=
  if_neg (not_all_isItem hSome h)

namespace ListLayout

variable {s : ListLayout} {run : List Text}

/-- What is written if no line follows. -/
def written (s : ListLayout) : Text :=
  s.out ++ joinLines s.pending ++ (if s.inList then listEnd else [])

/-- A run of items may begin if no list is open, and one of text if none waits. -/
def ReadyFor (s : ListLayout) (items : Bool) : Prop :=
  if items then s.inList = false else s.pending = []

theorem line_item {line : Text} (hKept : IsKept line) (hItem : isItem line) (s : ListLayout) :
    s.line line = s.item line.tail := by
  rw [isItem, hKept.trim_eq, decide_eq_true_iff] at hItem
  obtain ⟨rest, rfl⟩ := List.head?_eq_some_iff.mp hItem
  rw [ListLayout.line, hKept.trim_eq]
  exact if_pos rfl

theorem line_text {line : Text} (hKept : IsKept line) (hItem : isItem line = false)
    (s : ListLayout) : s.line line = s.text line := by
  rw [isItem, hKept.trim_eq, decide_eq_false_iff_not] at hItem
  obtain ⟨c, rest, rfl⟩ := List.exists_cons_of_ne_nil hKept.ne_nil
  rw [ListLayout.line, hKept.trim_eq]
  exact if_neg fun hc => hItem (congrArg some hc)

section Run

variable (hSome : run ≠ []) (hKept : ∀ line ∈ run, IsKept line)

include hSome hKept

theorem foldl_item (hItems : ∀ line ∈ run, isItem line = true) (s : ListLayout) :
    run.foldl line s =
      { out := s.out ++ joinLines s.pending ++ (if s.inList then [] else listBegin) ++
          run.flatMap fun line => itemLine line.tail
        pending := []
        inList := true } := by
  induction run generalizing s with
  | nil => exact absurd rfl hSome
  | cons first rest ih =>
    obtain ⟨hFirst, hItems⟩ := List.forall_mem_cons.mp hItems
    obtain ⟨hLine, hKept⟩ := List.forall_mem_cons.mp hKept
    rw [List.foldl_cons, line_item hLine hFirst, List.flatMap_cons]
    by_cases hLast : rest = []
    · rw [hLast]
      simp [item]
    · rw [ih hLast hKept hItems]
      simp [item, joinLines]

theorem foldl_text (hText : ∀ line ∈ run, isItem line = false) (s : ListLayout) :
    run.foldl line s =
      { out := s.out ++ (if s.inList then listEnd else [])
        pending := s.pending ++ run.map proseLine
        inList := false } := by
  induction run generalizing s with
  | nil => exact absurd rfl hSome
  | cons first rest ih =>
    obtain ⟨hFirst, hText⟩ := List.forall_mem_cons.mp hText
    obtain ⟨hLine, hKept⟩ := List.forall_mem_cons.mp hKept
    rw [List.foldl_cons, line_text hLine hFirst]
    by_cases hLast : rest = []
    · rw [hLast]
      rfl
    · rw [ih hLast hKept hText]
      simp [text]

/-- A run is written behind what was there, and a run of the other sort may follow. -/
theorem written_run {items : Bool} (hSort : ∀ line ∈ run, isItem line = items)
    (hReady : s.ReadyFor items) :
    (run.foldl line s).written = s.written ++ layoutRun run ∧
      (run.foldl line s).ReadyFor (!items) := by
  cases items with
  | true =>
    have hClosed : s.inList = false := hReady
    rw [foldl_item hSome hKept hSort, layoutRun_of_items hSort]
    refine ⟨?_, rfl⟩
    simp [written, hClosed, joinLines]
  | false =>
    have hNone : s.pending = [] := hReady
    rw [foldl_text hSome hKept hSort, layoutRun_of_text hSome hSort]
    refine ⟨?_, rfl⟩
    simp [written, hNone, joinLines]

end Run

theorem written_foldl {items : Bool} {runs : List (List Text)} (h : Alternates items runs)
    (hKept : ∀ line ∈ runs.flatten, IsKept line) (hReady : s.ReadyFor items) :
    (runs.flatten.foldl line s).written = s.written ++ runs.flatMap layoutRun := by
  induction h generalizing s with
  | nil => simp
  | cons hSome hSort _ ih =>
    rw [List.flatten_cons] at hKept
    obtain ⟨hRun, hRest⟩ := List.forall_mem_append.mp hKept
    obtain ⟨hWritten, hNext⟩ := written_run hSome hRun hSort hReady
    rw [List.flatten_cons, List.foldl_append, ih hRest hNext, hWritten, List.flatMap_cons,
      List.append_assoc]

end ListLayout

/-! ## Lists and paragraphs -/

theorem isKept_of_mem {lines : List Text} :
    ∀ line ∈ (lines.map trim).filter fun line => !line.isEmpty, IsKept line := by
  intro line hLine
  obtain ⟨hMem, hSome⟩ := List.mem_filter.mp hLine
  obtain ⟨source, _, rfl⟩ := List.mem_map.mp hMem
  exact ⟨trim_trim source, by simpa using hSome⟩

theorem list_eq_layoutRuns (lines : List Text) : list lines = layoutRuns lines := by
  rw [← list_kept, list, layoutRuns]
  generalize hLines : ((lines.map trim).filter fun line => !line.isEmpty) = kept
  have hKept : ∀ line ∈ kept, IsKept line := hLines ▸ isKept_of_mem
  obtain ⟨items, hRuns⟩ := alternates_splitBy kept
  have hReady : ListLayout.start.ReadyFor items := by cases items <;> rfl
  have hWritten := ListLayout.written_foldl hRuns (by rwa [List.flatten_splitBy]) hReady
  rw [List.flatten_splitBy] at hWritten
  exact congrArg (· ++ ['\n']) hWritten

/-- Lines without items are one run of text. -/
theorem list_of_text {lines : List Text} (h : lines.any isItem = false) :
    list lines =
      joinLines (((lines.map trim).filter fun line => !line.isEmpty).map proseLine) ++ ['\n'] := by
  rw [← any_isItem_kept] at h
  rw [← list_kept, list]
  generalize hLines : ((lines.map trim).filter fun line => !line.isEmpty) = kept at h
  have hKept : ∀ line ∈ kept, IsKept line := hLines ▸ isKept_of_mem
  have hText : ∀ line ∈ kept, isItem line = false := by simpa using h
  by_cases hSome : kept = []
  · rw [hSome]
    rfl
  · rw [ListLayout.foldl_text hSome hKept hText]
    simp [ListLayout.finish, ListLayout.start]

/-- Lines are laid out run by run: all lines are trimmed and the empty ones dropped, each longest
run of items is one list with an entry for each line, and each longest run of text is written with
breaks between its lines. A paragraph is always written so, whether or not it has an item. -/
theorem list_run_by_run :
    (∀ lines, list lines = layoutRuns lines) ∧
      ∀ content, paragraph content =
        list (Text.lines (italicMarkers (italics (mathMarkers content)))) := by
  refine ⟨list_eq_layoutRuns, fun content => ?_⟩
  rw [paragraph]
  dsimp only
  split
  · rfl
  · rename_i hText
    rw [Bool.not_eq_true] at hText
    exact (list_of_text hText).symm

end ProseMath.Latex
