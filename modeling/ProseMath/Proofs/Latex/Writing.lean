import Mathlib.Tactic.Common
import ProseMath.Latex.Document

/-!
# Writing piece by piece

Whatever is written is handed to a sink in pieces. `Emits w pieces result` says that an action hands
over these pieces and then ends with `result`, unless the sink refuses one of them: then it ends
there, and nothing of that piece or of a later one is written.

* `Emits.bind`: the pieces of one action behind those of another.
* `emits_writeDocument`: the pieces of a document, and how its writing ends.
* `document_of_body`: a document is its preamble, its body and its end.
* `writeDocument_limited`: a document written into a sink that refuses all but some pieces.
-/

namespace ProseMath.Latex

/-! ## Actions and their pieces -/

/-- What becomes of a sink that is handed some pieces, where all ends with `result` if none of them
is refused. -/
def Sink.handed (pieces : List Text) (result : Except WriteFailure Unit) :
    Sink → Except WriteFailure Unit × Sink
  | ⟨written, none⟩ => (result, ⟨written ++ pieces.flatten, none⟩)
  | ⟨written, some n⟩ =>
    if n < pieces.length then (.error .closed, ⟨written ++ (pieces.take n).flatten, some 0⟩)
    else (result, ⟨written ++ pieces.flatten, some (n - pieces.length)⟩)

/-- An action that hands over some pieces and ends with `result`. -/
def Emits (w : Writing Unit) (pieces : List Text) (result : Except WriteFailure Unit) : Prop :=
  ∀ sink, w.run.run sink = sink.handed pieces result

theorem emits_write (t : Text) : Emits (write t) [t] (.ok ()) := by
  rintro ⟨written, _ | _ | n⟩
  · simp only [Sink.handed, List.flatten_singleton]
    rfl
  · simp only [Sink.handed, List.take_zero, List.flatten_nil, List.append_nil]
    rfl
  · simp only [Sink.handed, List.flatten_singleton]
    rfl

/-- An action that leaves every sink as it is. -/
theorem emits_nil {w : Writing Unit} {result : Except WriteFailure Unit}
    (h : ∀ sink, w.run.run sink = (result, sink)) : Emits w [] result := by
  rintro ⟨written, _ | n⟩
  · rw [h, Sink.handed, List.flatten_nil, List.append_nil]
  · rw [h, Sink.handed, List.flatten_nil, List.append_nil]
    rfl

theorem run_bind (w : Writing Unit) (f : Unit → Writing Unit) (sink : Sink) :
    (w >>= f).run.run sink =
      match w.run.run sink with
      | (.ok a, after) => (f a).run.run after
      | (.error e, after) => (.error e, after) := by
  show (w.run >>= ExceptT.bindCont f).run sink = _
  rw [StateT.run_bind]
  rcases w.run.run sink with ⟨_ | _, after⟩ <;> rfl

namespace Emits

variable {w v : Writing Unit} {a b : List Text} {result : Except WriteFailure Unit}

/-- The sink refuses a piece of the first action, or it takes them all and the second goes on. -/
theorem bind (hFirst : Emits w a (.ok ())) (hSecond : Emits v b result) :
    Emits (w >>= fun _ => v) (a ++ b) result := by
  rintro ⟨written, _ | n⟩
  · rw [run_bind, hFirst]
    simp only [Sink.handed, hSecond ⟨_, none⟩, List.flatten_append, List.append_assoc]
  · rw [run_bind, hFirst]
    by_cases hRefused : n < a.length
    · have hBoth : n < (a ++ b).length := by rw [List.length_append]; omega
      simp only [Sink.handed, if_pos hRefused, if_pos hBoth,
        List.take_append_of_le_length (Nat.le_of_lt hRefused)]
    · simp only [Sink.handed, if_neg hRefused, hSecond ⟨_, some _⟩, List.length_append,
        List.flatten_append, List.append_assoc, List.take_append,
        List.take_of_length_le (Nat.not_lt.mp hRefused), Nat.sub_sub]
      by_cases hLater : n - a.length < b.length
      · rw [if_pos hLater, if_pos (by omega)]
      · rw [if_neg hLater, if_neg (by omega)]

/-- An action that fails keeps what would come behind it from being written. -/
theorem bind_error {e : WriteFailure} (hFirst : Emits w a (.error e)) (f : Unit → Writing Unit) :
    Emits (w >>= f) a (.error e) := by
  rintro ⟨written, _ | n⟩
  · rw [run_bind, hFirst]
    rfl
  · rw [run_bind, hFirst]
    by_cases hRefused : n < a.length
    · simp only [Sink.handed, if_pos hRefused]
    · simp only [Sink.handed, if_neg hRefused]

theorem collect (h : Emits w a result) : collect w = result.map fun _ => a.flatten := by
  rw [Latex.collect, h, Sink.handed]
  cases result <;> rfl

end Emits

theorem emits_forM {α : Type} {f : α → Writing Unit} {piece : α → Text}
    (h : ∀ x, Emits (f x) [piece x] (.ok ())) (xs : List α) :
    Emits (xs.forM f) (xs.map piece) (.ok ()) := by
  induction xs with
  | nil => exact emits_nil fun _ => rfl
  | cons x xs ih => exact (h x).bind ih

/-! ## Blocks -/

/-- The texts of the blocks in front of the first that cannot be written. -/
def blockPieces : List Block → List Text
  | [] => []
  | b :: rest =>
    match block b with
    | .ok t => t :: blockPieces rest
    | .error _ => []

/-- How the writing of some blocks ends: at the first that cannot be written. -/
def blocksResult : List Block → Except MissingNode Unit
  | [] => .ok ()
  | b :: rest => do
    let _ ← block b
    blocksResult rest

theorem emits_blocks (blocks : List Block) :
    Emits (blocks.forM writeBlock) (blockPieces blocks)
      ((blocksResult blocks).mapError .missing) := by
  induction blocks with
  | nil => exact emits_nil fun _ => rfl
  | cons b rest ih =>
    rw [blockPieces, blocksResult]
    show Emits (writeBlock b >>= fun _ => rest.forM writeBlock) _ _
    cases hBlock : block b with
    | ok t =>
      have hWrite : Emits (writeBlock b) [t] (.ok ()) := by
        rw [writeBlock, hBlock]
        exact emits_write t
      exact hWrite.bind ih
    | error node =>
      have hThrow : Emits (writeBlock b) [] (.error (.missing node)) := by
        rw [writeBlock, hBlock]
        exact emits_nil fun _ => rfl
      exact hThrow.bind_error _

theorem blocksResult_eq_ok_iff {blocks : List Block} :
    blocksResult blocks = .ok () ↔ ∀ b ∈ blocks, ∃ t, block b = .ok t := by
  induction blocks with
  | nil => simp [blocksResult]
  | cons b rest ih =>
    rw [blocksResult, List.forall_mem_cons, ← ih]
    cases block b <;> simp [bind, Except.bind]

theorem exists_blocksResult_eq_error_iff {blocks : List Block} :
    (∃ node, blocksResult blocks = .error node) ↔ ∃ b ∈ blocks, ∃ node, block b = .error node := by
  induction blocks with
  | nil => simp [blocksResult]
  | cons b rest ih =>
    simp only [blocksResult, List.mem_cons, exists_eq_or_imp, ← ih]
    cases block b <;> simp [bind, Except.bind]

theorem mapM_block (blocks : List Block) :
    blocks.mapM block = (blocksResult blocks).map fun _ => blockPieces blocks := by
  induction blocks with
  | nil => rfl
  | cons b rest ih =>
    rw [List.mapM_cons, ih, blocksResult, blockPieces]
    cases block b with
    | error node => rfl
    | ok t => cases blocksResult rest <;> rfl

/-! ## Documents -/

/-- The lines in front of the blocks. -/
def Options.preamble (o : Options) : List Text :=
  o.classLine :: (o.packages.map fun package => package.line ++ ['\n']) ++ [documentBegin]

/-- The pieces of a document: the preamble, the blocks as far as they can be written, and the end if
all of them can. -/
def documentPieces (o : Options) (d : Document) : List Text :=
  o.preamble ++ blockPieces d.blocks ++
    match blocksResult d.blocks with
    | .ok _ => [documentEnd]
    | .error _ => []

theorem emits_writeDocument (o : Options) (d : Document) :
    Emits (writeDocument o d) (documentPieces o d)
      ((blocksResult d.blocks).mapError .missing) := by
  have hPackages := emits_forM (fun package : Package => emits_write (package.line ++ ['\n']))
    o.packages
  have hBlocks := emits_blocks d.blocks
  have hRest : Emits (writeBlocks d >>= fun _ => write documentEnd)
      (blockPieces d.blocks ++ match blocksResult d.blocks with
        | .ok _ => [documentEnd]
        | .error _ => []) ((blocksResult d.blocks).mapError .missing) := by
    cases hResult : blocksResult d.blocks with
    | ok _ =>
      rw [hResult] at hBlocks
      exact hBlocks.bind (emits_write documentEnd)
    | error node =>
      rw [hResult] at hBlocks
      rw [List.append_nil]
      exact hBlocks.bind_error _
  have hAll := (emits_write o.classLine).bind
    (hPackages.bind ((emits_write documentBegin).bind hRest))
  simp only [documentPieces, Options.preamble, List.cons_append, List.append_assoc]
  exact hAll

/-- A document written into a sink that takes `n` pieces. -/
def writeLimited (o : Options) (d : Document) (n : Nat) : Except WriteFailure Unit × Sink :=
  (writeDocument o d).run.run ⟨[], some n⟩

section Limited

variable {o : Options} {d : Document} {n : Nat}

theorem writeLimited_refused (h : n < (documentPieces o d).length) :
    writeLimited o d n =
      (.error .closed, ⟨((documentPieces o d).take n).flatten, some 0⟩) :=
  (emits_writeDocument o d ⟨[], some n⟩).trans (if_pos h)

theorem writeLimited_taken (h : (documentPieces o d).length ≤ n) :
    writeLimited o d n = ((blocksResult d.blocks).mapError .missing,
      ⟨(documentPieces o d).flatten, some (n - (documentPieces o d).length)⟩) :=
  (emits_writeDocument o d ⟨[], some n⟩).trans (if_neg (Nat.not_lt.mpr h))

end Limited

theorem document_eq (o : Options) (d : Document) :
    document o d = ((blocksResult d.blocks).mapError .missing).map fun _ =>
      (documentPieces o d).flatten :=
  (emits_writeDocument o d).collect

theorem document_of_blocksResult (o : Options) {d : Document} (h : blocksResult d.blocks = .ok ()) :
    document o d = .ok (documentPieces o d).flatten ∧
      ∃ s, body d = .ok s ∧
        (documentPieces o d).flatten = o.preamble.flatten ++ s ++ documentEnd := by
  have hBody := (emits_blocks d.blocks).collect
  rw [h] at hBody
  refine ⟨by rw [document_eq, h]; rfl, (blockPieces d.blocks).flatten, hBody, ?_⟩
  rw [documentPieces, h, List.flatten_append, List.flatten_append, List.flatten_singleton]

/-- A document whose body can be written can be written itself. -/
theorem document_of_body (o : Options) {d : Document} {s : Text} (h : body d = .ok s) :
    document o d = .ok (o.preamble.flatten ++ s ++ documentEnd) := by
  have hBlocks : body d = _ := (emits_blocks d.blocks).collect
  have hAll : blocksResult d.blocks = .ok () := by
    cases hResult : blocksResult d.blocks with
    | ok _ => rfl
    | error node =>
      -- then there is no body
      rw [h, hResult] at hBlocks
      cases hBlocks
  obtain ⟨hDocument, written, hBody, hPieces⟩ := document_of_blocksResult o hAll
  obtain rfl : s = written := Except.ok.inj (h.symm.trans hBody)
  rw [hDocument, hPieces]

/-- A sink that takes `n` pieces gets the first `n` of them. Where it is handed more, that is the
failure that is reported, and otherwise a block that cannot be written, if there is one. -/
theorem writeDocument_limited (o : Options) (d : Document) (n : Nat) :
    (writeLimited o d n).2.written = ((documentPieces o d).take n).flatten ∧
    ((writeLimited o d n).1 = .error .closed ↔ n < (documentPieces o d).length) ∧
    ((∃ node, (writeLimited o d n).1 = .error (.missing node)) ↔
      (documentPieces o d).length ≤ n ∧ ∃ b ∈ d.blocks, ∃ node, block b = .error node) ∧
    ((writeLimited o d n).1 = .ok () ↔
      (documentPieces o d).length ≤ n ∧ ∀ b ∈ d.blocks, ∃ t, block b = .ok t) ∧
    ((∀ b ∈ d.blocks, ∃ t, block b = .ok t) →
      document o d = .ok (documentPieces o d).flatten ∧
        ∃ s, body d = .ok s ∧
          (documentPieces o d).flatten = o.preamble.flatten ++ s ++ documentEnd) := by
  rw [← exists_blocksResult_eq_error_iff, ← blocksResult_eq_ok_iff]
  have hWhole := document_of_blocksResult o (d := d)
  rcases Nat.lt_or_ge n (documentPieces o d).length with hRefused | hTaken
  · have hNone : ¬ (documentPieces o d).length ≤ n := Nat.not_le.mpr hRefused
    rw [writeLimited_refused hRefused]
    exact ⟨rfl, iff_of_true rfl hRefused, iff_of_false (by simp) fun h => hNone h.1,
      iff_of_false (by simp) fun h => hNone h.1, hWhole⟩
  · have hAll : ¬ n < (documentPieces o d).length := Nat.not_lt.mpr hTaken
    rw [writeLimited_taken hTaken, List.take_of_length_le hTaken]
    cases hResult : blocksResult d.blocks with
    | ok _ =>
      exact ⟨rfl, iff_of_false (by simp [Except.mapError]) hAll,
        iff_of_false (by simp [Except.mapError]) (by simp), iff_of_true rfl ⟨hTaken, rfl⟩,
        fun _ => hWhole hResult⟩
    | error node =>
      exact ⟨rfl, iff_of_false (by simp [Except.mapError]) hAll,
        iff_of_true ⟨node, rfl⟩ ⟨hTaken, node, rfl⟩,
        iff_of_false (by simp [Except.mapError]) (by simp), fun h => (nomatch h)⟩

/-- A heading in front of a missing block is the sixth piece. A sink that takes five pieces does not
come to the missing block, and without it the document is complete. -/
theorem writeDocument_limited_heading :
    (writeLimited .default ⟨[.heading ['A'], .missing]⟩ 5).1 = .error .closed ∧
    (∃ node, (writeLimited .default ⟨[.heading ['A'], .missing]⟩ 6).1 = .error (.missing node)) ∧
    (∀ b ∈ [Block.heading ['A']], ∃ t, block b = .ok t) ∧
      document .default ⟨[.heading ['A']]⟩ = .ok (Options.default.preamble.flatten ++
        "\\section\x7bA\x7d\n\n\\end\x7bdocument\x7d\n".toList) := by
  have hHeading : ∀ b ∈ [Block.heading ['A']], ∃ t, block b = .ok t := by
    intro b hb
    rw [List.mem_singleton.mp hb]
    exact ⟨_, rfl⟩
  obtain ⟨_, hClosed, _⟩ := writeDocument_limited .default ⟨[.heading ['A'], .missing]⟩ 5
  obtain ⟨_, _, hMissing, _⟩ := writeDocument_limited .default ⟨[.heading ['A'], .missing]⟩ 6
  obtain ⟨_, _, _, _, hWhole⟩ := writeDocument_limited .default ⟨[.heading ['A']]⟩ 0
  refine ⟨hClosed.mpr (by decide), hMissing.mpr ⟨by decide, .missing, by simp, _, rfl⟩, hHeading,
    ?_⟩
  exact (hWhole hHeading).1.trans rfl

end ProseMath.Latex
