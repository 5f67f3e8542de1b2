import Mathlib.Tactic.Common
import ProseMath.Proofs.Document.Block
import ProseMath.Proofs.Latex.Writing

/-!
# The body of a document

The body is what its blocks are written as, one behind another. Writing fails only at a node that is
missing, and what is read from a text has no such node.

* `body_eq`: the body of a document in terms of its blocks.
* `body_append`: the body of two lists of blocks.
* `exists_formula_of_reads`: an expression that was read can be written.
* `exists_body`: a document that was read can be written.
-/

namespace ProseMath.Latex

/-! ## The body and its blocks -/

theorem body_eq (d : Document) :
    body d = ((d.blocks.mapM block).map List.flatten).mapError .missing := by
  have hBody : body d = ((blocksResult d.blocks).mapError .missing).map fun _ =>
      (blockPieces d.blocks).flatten := (emits_blocks d.blocks).collect
  rw [hBody, mapM_block]
  cases blocksResult d.blocks <;> rfl

/-- The body of a document all of whose blocks can be written. -/
theorem exists_body_of_block {blocks : List Block} (h : ∀ b ∈ blocks, ∃ t, block b = .ok t) :
    ∃ t, body ⟨blocks⟩ = .ok t := by
  rw [body_eq, mapM_block, blocksResult_eq_ok_iff.mpr h]
  exact ⟨(blockPieces blocks).flatten, rfl⟩

theorem body_append {a b : List Block} {s t : Text} (ha : body ⟨a⟩ = .ok s)
    (hb : body ⟨b⟩ = .ok t) : body ⟨a ++ b⟩ = .ok (s ++ t) := by
  rw [body_eq] at ha hb ⊢
  rw [List.mapM_append]
  cases hFirst : a.mapM block with
  | error node =>
    rw [hFirst] at ha
    cases ha
  | ok first =>
    cases hSecond : b.mapM block with
    | error node =>
      rw [hSecond] at hb
      cases hb
    | ok second =>
      rw [hFirst] at ha
      rw [hSecond] at hb
      cases ha
      cases hb
      exact congrArg Except.ok List.flatten_append

theorem mapM_map_block (blocks : List Block) :
    blocks.mapM block = (blocks.map block).mapM id := by
  rw [List.mapM_map]
  rfl

/-- Blocks that are written the same make the same body. -/
theorem body_congr {a b : List Block} (h : a.map block = b.map block) : body ⟨a⟩ = body ⟨b⟩ := by
  rw [body_eq, body_eq, mapM_map_block, mapM_map_block, h]

theorem body_of_map {blocks : List Block} {texts : List Text}
    (h : blocks.map block = texts.map .ok) : body ⟨blocks⟩ = .ok texts.flatten := by
  have hTexts : (texts.map .ok).mapM id = (.ok texts : Except MissingNode (List Text)) := by
    rw [List.mapM_map]
    exact (List.mapM_pure (f := id)).trans (by rw [List.map_id]; rfl)
  rw [body_eq, mapM_map_block, h, hTexts]
  rfl

/-! ## Expressions without missing nodes -/

theorem exists_formulas_append {a b : List Expr} (ha : ∃ texts, formulas a = .ok texts)
    (hb : ∃ texts, formulas b = .ok texts) : ∃ texts, formulas (a ++ b) = .ok texts := by
  obtain ⟨second, hSecond⟩ := hb
  induction a with
  | nil => exact ⟨second, hSecond⟩
  | cons item a ih =>
    obtain ⟨texts, hTexts⟩ := ha
    rw [formulas] at hTexts
    obtain ⟨first, hFirst, hTexts⟩ := Expr.exists_of_bind_eq_ok hTexts
    obtain ⟨later, hLater, hTexts⟩ := Expr.exists_of_bind_eq_ok hTexts
    obtain ⟨rest, hRest⟩ := ih ⟨later, hLater⟩
    rw [List.cons_append, formulas, hFirst, hRest]
    exact ⟨first :: rest, rfl⟩

theorem exists_formulas_items {e : Expr} (h : ∃ t, formula e = .ok t) :
    ∃ texts, formulas e.items = .ok texts := by
  obtain ⟨t, ht⟩ := h
  cases e with
  | sequence items =>
    rw [formula] at ht
    obtain ⟨texts, hTexts, _⟩ := Expr.exists_of_bind_eq_ok ht
    exact ⟨texts, hTexts⟩
  | _ =>
    refine ⟨[t], ?_⟩
    simp only [Expr.items, formulas, ht]
    rfl

theorem exists_formula_juxtapose {a b : Expr} (ha : ∃ t, formula a = .ok t)
    (hb : ∃ t, formula b = .ok t) : ∃ t, formula (.juxtapose a b) = .ok t := by
  obtain ⟨texts, hTexts⟩ :=
    exists_formulas_append (exists_formulas_items ha) (exists_formulas_items hb)
  rw [Expr.juxtapose, formula, hTexts]
  exact ⟨_, rfl⟩

theorem exists_formula_attach (before : List Token) {call : Expr} (h : ∃ t, formula call = .ok t) :
    ∃ t, formula (Expr.attach before call) = .ok t := by
  rw [Expr.attach]
  split
  · exact h
  · exact exists_formula_juxtapose ⟨_, by rw [formula]⟩ h

theorem exists_formula_of_reads {form : Expr.Form} {tokens : List Token} {e : Expr}
    (h : Expr.Reads form tokens e) : ∃ t, formula e = .ok t := by
  induction h with
  | identifier _ => exact ⟨_, by rw [formula]⟩
  | sum _ _ _ _ _ _ ihLower ihUpper ihBody =>
    obtain ⟨lower, hLower⟩ := ihLower
    obtain ⟨upper, hUpper⟩ := ihUpper
    obtain ⟨body, hBody⟩ := ihBody
    apply exists_formula_attach
    rw [formula, hLower, hUpper, hBody]
    exact ⟨_, rfl⟩
  | fraction _ _ _ _ _ ihNumerator ihDenominator =>
    obtain ⟨numerator, hNumerator⟩ := ihNumerator
    obtain ⟨denominator, hDenominator⟩ := ihDenominator
    apply exists_formula_attach
    rw [formula, hNumerator, hDenominator]
    exact ⟨_, rfl⟩
  | plus _ _ _ _ ihLeft ihRight =>
    obtain ⟨left, hLeft⟩ := ihLeft
    obtain ⟨right, hRight⟩ := ihRight
    rw [formula, hLeft, hRight]
    exact ⟨_, rfl⟩
  | equation _ _ _ _ ihLeft ihRight =>
    obtain ⟨left, hLeft⟩ := ihLeft
    obtain ⟨right, hRight⟩ := ihRight
    rw [formula, hLeft, hRight]
    exact ⟨_, rfl⟩
  | juxtapose _ _ _ ihLeft ihRight => exact exists_formula_juxtapose ihLeft ihRight

theorem exists_display {tokens : List Token} {e : Equation}
    (h : Equation.parse tokens = .ok e) : ∃ t, display e = .ok t := by
  obtain ⟨left, sign, right, _, _, _, _, hLeft, hRight⟩ := Equation.parse_eq_ok_iff.mp h
  obtain ⟨_, hLeft⟩ := Expr.reads_of_parse hLeft
  obtain ⟨_, hRight⟩ := Expr.reads_of_parse hRight
  obtain ⟨lhs, hLhs⟩ := exists_formula_of_reads hLeft
  obtain ⟨rhs, hRhs⟩ := exists_formula_of_reads hRight
  rw [display, Equation.toExpr, formula, hLhs, hRhs]
  exact ⟨_, rfl⟩

/-! ## Documents that were read -/

theorem exists_block_of_passages {depth : Nat} {lines : List Line} {passages : List Passage}
    (h : readLines depth lines = .ok passages) :
    ∀ b ∈ (Document.ofPassages passages).blocks, ∃ t, block b = .ok t := by
  intro b hb
  obtain ⟨segment, hSegment, rfl⟩ := List.mem_map.mp hb
  cases segment with
  | prose lines => exact ⟨_, rfl⟩
  | equation e =>
    obtain ⟨passage, hPassage, he⟩ := isOf_of_mem_segments hSegment
    exact exists_display (readLines_equation h hPassage he)

/-- A document that was read can be written. -/
theorem exists_body {t : Text} {d : Document} (h : Document.parse t = .ok d) :
    ∃ s, body d = .ok s := by
  obtain ⟨passages, hRead, rfl⟩ := Document.exists_passages_of_parse h
  exact exists_body_of_block (exists_block_of_passages hRead)

end ProseMath.Latex
