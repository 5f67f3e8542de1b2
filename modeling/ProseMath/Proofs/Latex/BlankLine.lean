import Mathlib.Data.List.Permutation
import Mathlib.Tactic.Common
import ProseMath.Proofs.Latex.Row

/-!
# Blocks and blank lines

No line of a block is empty, so the first blank line in what is written is the one behind the first
block, and the blocks can be told apart in the body of a document.

* `splitAtFirst?_le`: a split is at the first occurrence of the pattern.
* `Rows.splitAtFirst?`: the first blank line behind some lines.
* `splitAtBlankLines_flatten`: the pieces of a body.
* `body_block_structure`: a document that was read has one piece for each block.
-/

namespace ProseMath.Latex

open Text

/-- The line feed of a line and that of an empty line. -/
def blankLine : Text := ['\n', '\n']

/-- The pieces between blank lines, which are looked for from left to right. -/
def splitAtBlankLines (t : Text) : List Text :=
  match _hSplit : splitAtFirst? blankLine t with
  | none => [t]
  | some (first, rest) => first :: splitAtBlankLines rest
termination_by t.length
decreasing_by
  have hLength := congrArg List.length (splitAtFirst?_append _hSplit)
  simp only [List.length_append, blankLine, List.length_cons] at hLength
  omega

theorem splitAtBlankLines_of_some {t first rest : Text}
    (h : splitAtFirst? blankLine t = some (first, rest)) :
    splitAtBlankLines t = first :: splitAtBlankLines rest := by
  rw [splitAtBlankLines]
  split
  · rename_i hNone
    rw [h] at hNone
    cases hNone
  · rename_i hSome
    rw [h] at hSome
    cases hSome
    rfl

theorem splitAtBlankLines_nil : splitAtBlankLines [] = [[]] := by
  rw [splitAtBlankLines]
  rfl

/-! ## The first blank line -/

section First

variable {t : Text}

theorem splitAtFirst?_le {pattern before after : Text} {parts : Text × Text}
    (h : splitAtFirst? pattern t = some parts) (hText : t = before ++ (pattern ++ after)) :
    parts.1.length ≤ before.length := by
  induction t generalizing parts before with
  | nil =>
    rw [splitAtFirst?] at h
    split at h
    · cases h
      exact Nat.zero_le _
    · cases h
  | cons c t ih =>
    rw [splitAtFirst?] at h
    split at h
    · cases h
      exact Nat.zero_le _
    · rename_i hNot
      obtain ⟨inner, hInner, rfl⟩ := Option.map_eq_some_iff.mp h
      cases before with
      | nil =>
        apply absurd _ hNot
        rw [hText]
        exact List.isPrefixOf_iff_prefix.mpr (List.prefix_append pattern after)
      | cons d before =>
        have hRest := ih hInner (List.cons.inj hText).2
        exact Nat.succ_le_succ hRest

theorem splitAtFirst?_line {line : Text} (h : '\n' ∉ line) (t : Text) :
    splitAtFirst? blankLine (line ++ t) =
      (splitAtFirst? blankLine t).map fun parts => (line ++ parts.1, parts.2) :=
  splitAtFirst?_skip (by decide) h t

theorem splitAtFirst?_newline (h : t.head? ≠ some '\n') :
    splitAtFirst? blankLine ('\n' :: t) =
      (splitAtFirst? blankLine t).map fun parts => ('\n' :: parts.1, parts.2) := by
  have hNot : ¬ blankLine.isPrefixOf ('\n' :: t) := by
    cases t with
    | nil => simp [blankLine]
    | cons c t =>
      have hc : '\n' ≠ c := fun hNewline => h (hNewline ▸ rfl)
      simp [blankLine, hc]
  rw [splitAtFirst?, if_neg hNot]

end First

/-! ## Lines of a block -/

section Chunk

variable {t : Text}

theorem Row.head?_ne_newline {line : Text} (h : Row symbolCommands line) (t : Text) :
    (line ++ t).head? ≠ some '\n' := by
  have hNewline := h.typeset.not_mem_newline isPlain_symbolCommands
  obtain ⟨c, line, rfl⟩ := List.exists_cons_of_ne_nil h.ne_nil
  intro hHead
  exact hNewline (Option.some.inj hHead ▸ List.mem_cons_self)

/-- The line feed of the last line and one more make the first blank line. -/
theorem Rows.splitAtFirst? (h : Rows symbolCommands t) (hSome : t ≠ []) :
    ∃ inner, t = inner ++ ['\n'] ∧ inner ≠ [] ∧ t.head? ≠ some '\n' ∧
      ∀ more, splitAtFirst? blankLine (t ++ '\n' :: more) = some (inner, more) := by
  induction h with
  | nil => exact absurd rfl hSome
  | @cons line rest hLine hRest ih =>
    have hNewline := hLine.typeset.not_mem_newline isPlain_symbolCommands
    by_cases hLast : rest = []
    · rw [hLast]
      refine ⟨line, rfl, hLine.ne_nil, hLine.head?_ne_newline _, fun more => ?_⟩
      rw [List.append_assoc, splitAtFirst?_line hNewline]
      exact congrArg some (congrArg (·, more) (List.append_nil line))
    · obtain ⟨inner, hInner, _, hHead, hSplit⟩ := ih hLast
      refine ⟨line ++ '\n' :: inner, ?_, by simp, hLine.head?_ne_newline _, fun more => ?_⟩
      · rw [List.append_assoc, List.cons_append, ← hInner]
      · have hMore : (rest ++ '\n' :: more).head? ≠ some '\n' := by
          rwa [List.head?_append_of_ne_nil _ hLast]
        rw [List.append_assoc, splitAtFirst?_line hNewline, List.cons_append,
          splitAtFirst?_newline hMore, hSplit]
        rfl

theorem Chunk.splitAtFirst? (h : Chunk t) :
    ∃ inner, t = inner ++ blankLine ∧ inner ≠ [] ∧ t.head? ≠ some '\n' ∧
      ∀ more, splitAtFirst? blankLine (t ++ more) = some (inner, more) := by
  obtain ⟨hRows, hSome⟩ := h
  rename_i rows
  obtain ⟨inner, hInner, hInnerSome, hHead, hSplit⟩ := hRows.splitAtFirst? hSome
  refine ⟨inner, ?_, hInnerSome, ?_, fun more => ?_⟩
  · rw [hInner, List.append_assoc]
    rfl
  · rwa [List.head?_append_of_ne_nil _ hSome]
  · rw [List.append_assoc]
    exact hSplit more

theorem Chunk.eq_nil_of_append (h : Chunk t) {before after : Text}
    (hText : t = before ++ blankLine ++ after) : after = [] := by
  obtain ⟨inner, hInner, _, _, hSplit⟩ := h.splitAtFirst?
  have hFirst := hSplit []
  rw [List.append_nil] at hFirst
  rw [List.append_assoc] at hText
  have hLe := splitAtFirst?_le hFirst hText
  have hLength := congrArg List.length (hInner.symm.trans hText)
  simp only [List.length_append] at hLength
  apply List.eq_nil_of_length_eq_zero
  dsimp only at hLe
  omega

end Chunk

theorem splitAtBlankLines_flatten {chunks : List Text} (h : ∀ chunk ∈ chunks, Chunk chunk) :
    ∃ pieces : List Text, chunks = pieces.map (· ++ blankLine) ∧ [] ∉ pieces ∧
      splitAtBlankLines chunks.flatten = pieces ++ [[]] := by
  induction chunks with
  | nil => exact ⟨[], rfl, List.not_mem_nil, splitAtBlankLines_nil⟩
  | cons chunk rest ih =>
    obtain ⟨hChunk, hRest⟩ := List.forall_mem_cons.mp h
    obtain ⟨inner, hInner, hSome, _, hSplit⟩ := hChunk.splitAtFirst?
    obtain ⟨pieces, hPieces, hNone, hLater⟩ := ih hRest
    refine ⟨inner :: pieces, ?_, ?_, ?_⟩
    · rw [List.map_cons, ← hInner, ← hPieces]
    · simp [hSome.symm, hNone]
    · rw [List.flatten_cons, splitAtBlankLines_of_some (hSplit _), hLater, List.cons_append]

/-- The body of a document that was read shows its blocks: each is written with a blank line at its
end and none before, so that a split at blank lines gives one piece for each block, and nothing
behind the last. -/
theorem body_block_structure {t : Text} {d : Document} (h : Document.parse t = .ok d) :
    ∃ chunks : List Text,
      d.blocks.map block = chunks.map .ok ∧ body d = .ok chunks.flatten ∧
      (∀ chunk ∈ chunks, chunk ≠ [] ∧ blankLine <:+ chunk ∧ chunk.head? ≠ some '\n' ∧
        ∀ before after, chunk = before ++ blankLine ++ after → after = []) ∧
      ∃ pieces : List Text, chunks = pieces.map (· ++ blankLine) ∧ [] ∉ pieces ∧
        splitAtBlankLines chunks.flatten = pieces ++ [[]] := by
  obtain ⟨chunks, hMap, hBody, hChunks⟩ := exists_chunks h
  refine ⟨chunks, hMap, hBody, fun chunk hMem => ?_, splitAtBlankLines_flatten hChunks⟩
  have hChunk := hChunks chunk hMem
  obtain ⟨inner, hInner, hSome, hHead, _⟩ := hChunk.splitAtFirst?
  refine ⟨?_, ⟨inner, hInner.symm⟩, hHead, fun before after => hChunk.eq_nil_of_append⟩
  rw [hInner]
  exact List.append_ne_nil_of_left_ne_nil hSome _

/-- A list under a line of text is one piece with it, and the line behind them another. -/
theorem body_block_structure_list :
    Document.parse "see\n- a\n\nb".toList =
      .ok ⟨[.paragraph "see\n- a".toList, .paragraph ['b']]⟩ ∧
    ∃ s first second,
      body ⟨[.paragraph "see\n- a".toList, .paragraph ['b']]⟩ = .ok s ∧
      splitAtBlankLines s = [first, second, []] ∧
      block (.paragraph "see\n- a".toList) = .ok (first ++ blankLine) ∧
      block (.paragraph ['b']) = .ok (second ++ blankLine) := by
  have hParse : Document.parse "see\n- a\n\nb".toList =
      .ok ⟨[.paragraph "see\n- a".toList, .paragraph ['b']]⟩ := by cbv
  refine ⟨hParse, ?_⟩
  obtain ⟨chunks, hMap, hBody, _, pieces, rfl, _, hSplit⟩ := body_block_structure hParse
  have hLength : pieces.length = 2 := by simpa using (congrArg List.length hMap).symm
  obtain ⟨first, second, rfl⟩ := List.length_eq_two.mp hLength
  obtain ⟨hFirst, hMap⟩ := List.cons.inj hMap
  exact ⟨_, first, second, hBody, hSplit, hFirst, (List.cons.inj hMap).1⟩

end ProseMath.Latex
