import Mathlib.Data.List.Permutation
import Mathlib.Tactic.Common
import ProseMath.Proofs.Latex.Body

/-!
# Missing nodes

The nodes of a document are listed from the top down and from left to right. Writing fails at the
first of them that is missing and says of which sort it is; if none is missing, it succeeds.

* `settles_formula`, `settles_block`, `settles_blocks`: the nodes decide about the result.
* `writing_fails_iff_missing`: a document can be written exactly if no node is missing, and this is
  so for all documents that are read.
-/

namespace ProseMath

/-! ## Nodes -/

/-- A node of a document, with all that is below it. -/
inductive Node where
  | block (b : Block)
  | expression (e : Expr)

/-- The sort of a node that is missing. -/
def Node.missing? : Node → Option MissingNode
  | .block .missing => some .block
  | .expression .missing => some .expression
  | _ => none

mutual

/-- The nodes of an expression, each in front of those below it. -/
def Expr.nodes : Expr → List Node
  | .missing => [.expression .missing]
  | .identifier name => [.expression (.identifier name)]
  | .plus left right => .expression (.plus left right) :: (left.nodes ++ right.nodes)
  | .equation lhs rhs => .expression (.equation lhs rhs) :: (lhs.nodes ++ rhs.nodes)
  | .sum lower upper body =>
    .expression (.sum lower upper body) :: (lower.nodes ++ (upper.nodes ++ body.nodes))
  | .fraction numerator denominator =>
    .expression (.fraction numerator denominator) :: (numerator.nodes ++ denominator.nodes)
  | .sequence items => .expression (.sequence items) :: Expr.nodesAll items

def Expr.nodesAll : List Expr → List Node
  | [] => []
  | item :: rest => item.nodes ++ Expr.nodesAll rest

end

/-- The nodes of both sides. -/
def Equation.nodes (e : Equation) : List Node := e.lhs.nodes ++ e.rhs.nodes

def Block.nodes : Block → List Node
  | .equation e => .block (.equation e) :: e.nodes
  | b => [.block b]

def Document.nodes (d : Document) : List Node := d.blocks.flatMap Block.nodes

/-- The sort of the first node that is missing. -/
def Document.firstMissing? (d : Document) : Option MissingNode := d.nodes.findSome? Node.missing?

theorem Block.exists_missing_iff {b : Block} :
    (∃ node ∈ b.nodes, node.missing?.isSome) ↔
      b = .missing ∨ ∃ e, b = .equation e ∧ ∃ node ∈ e.nodes, node.missing?.isSome := by
  cases b <;> simp [Block.nodes, Node.missing?]

theorem Document.firstMissing?_isSome_iff {d : Document} :
    d.firstMissing?.isSome ↔ Block.missing ∈ d.blocks ∨
      ∃ e, Block.equation e ∈ d.blocks ∧ ∃ node ∈ e.nodes, node.missing?.isSome := by
  rw [firstMissing?, List.findSome?_isSome_iff, nodes]
  constructor
  · rintro ⟨node, hNode, hMissing⟩
    obtain ⟨b, hb, hNode⟩ := List.mem_flatMap.mp hNode
    rcases Block.exists_missing_iff.mp ⟨node, hNode, hMissing⟩ with rfl | ⟨e, rfl, hSide⟩
    · exact Or.inl hb
    · exact Or.inr ⟨e, hb, hSide⟩
  · intro h
    obtain ⟨b, hb, node, hNode, hMissing⟩ : ∃ b ∈ d.blocks, ∃ node ∈ b.nodes,
        node.missing?.isSome := by
      rcases h with hb | ⟨e, hb, hSide⟩
      · exact ⟨_, hb, Block.exists_missing_iff.mpr (Or.inl rfl)⟩
      · exact ⟨_, hb, Block.exists_missing_iff.mpr (Or.inr ⟨e, rfl, hSide⟩)⟩
    exact ⟨node, List.mem_flatMap.mpr ⟨b, hb, hNode⟩, hMissing⟩

namespace Latex

/-! ## What the nodes decide -/

/-- A result that is a failure at the first missing one of some nodes. -/
def Settles {α : Type} (nodes : List Node) (result : Except MissingNode α) : Prop :=
  match nodes.findSome? Node.missing? with
  | none => ∃ a, result = .ok a
  | some node => result = .error node

section Settles

variable {α β : Type} {a b : List Node} {x : Except MissingNode α}

theorem settles_ok (value : α) : Settles [] (.ok value : Except MissingNode α) := ⟨value, rfl⟩

theorem settles_cons_iff {node : Node} (h : node.missing? = none) :
    Settles (node :: a) x ↔ Settles a x := by
  rw [Settles, List.findSome?_cons, h]
  rfl

theorem Settles.bind {f : α → Except MissingNode β} (hFirst : Settles a x)
    (hSecond : ∀ value, Settles b (f value)) : Settles (a ++ b) (x >>= f) := by
  unfold Settles at hFirst ⊢
  rw [List.findSome?_append]
  cases hMissing : a.findSome? Node.missing? with
  | some node =>
    rw [hMissing] at hFirst
    rw [hFirst]
    rfl
  | none =>
    rw [hMissing] at hFirst
    obtain ⟨value, rfl⟩ := hFirst
    exact hSecond value

theorem Settles.map (h : Settles a x) (f : α → β) :
    Settles a (x >>= fun value => pure (f value)) := by
  have hBind := h.bind fun value => settles_ok (f value)
  rwa [List.append_nil] at hBind

theorem Settles.exists_ok_iff (h : Settles a x) :
    (∃ value, x = .ok value) ↔ ∀ node ∈ a, node.missing? = none := by
  rw [← List.findSome?_eq_none_iff]
  unfold Settles at h
  cases hMissing : a.findSome? Node.missing? with
  | some node =>
    rw [hMissing] at h
    simp [h]
  | none =>
    rw [hMissing] at h
    exact iff_of_true h rfl

end Settles

mutual

theorem settles_formula : ∀ e : Expr, Settles e.nodes (formula e)
  | .missing => by
    rw [formula]
    rfl
  | .identifier name => by
    rw [Expr.nodes, formula]
    exact (settles_cons_iff rfl).mpr (settles_ok _)
  | .plus left right => by
    rw [Expr.nodes, formula]
    exact (settles_cons_iff rfl).mpr
      ((settles_formula left).bind fun _ => (settles_formula right).map _)
  | .equation lhs rhs => by
    rw [Expr.nodes, formula]
    exact (settles_cons_iff rfl).mpr
      ((settles_formula lhs).bind fun _ => (settles_formula rhs).map _)
  | .sum lower upper body => by
    rw [Expr.nodes, formula]
    exact (settles_cons_iff rfl).mpr ((settles_formula lower).bind fun _ =>
      (settles_formula upper).bind fun _ => (settles_formula body).map _)
  | .fraction numerator denominator => by
    rw [Expr.nodes, formula]
    exact (settles_cons_iff rfl).mpr
      ((settles_formula numerator).bind fun _ => (settles_formula denominator).map _)
  | .sequence items => by
    rw [Expr.nodes, formula]
    exact (settles_cons_iff rfl).mpr ((settles_formulas items).map _)

theorem settles_formulas : ∀ items : List Expr, Settles (Expr.nodesAll items) (formulas items)
  | [] => by
    rw [Expr.nodesAll, formulas]
    exact settles_ok _
  | item :: rest => by
    rw [Expr.nodesAll, formulas]
    exact (settles_formula item).bind fun _ => (settles_formulas rest).map _

end

theorem settles_block (b : Block) : Settles b.nodes (block b) := by
  cases b with
  | missing => rfl
  | paragraph content => exact (settles_cons_iff rfl).mpr (settles_ok _)
  | heading content => exact (settles_cons_iff rfl).mpr (settles_ok _)
  | equation e =>
    have hSides : Settles e.nodes (formula e.toExpr) :=
      (settles_cons_iff rfl).mp (settles_formula e.toExpr)
    exact (settles_cons_iff rfl).mpr (hSides.map _)

theorem settles_blocks (blocks : List Block) :
    Settles (blocks.flatMap Block.nodes) (blocksResult blocks) := by
  induction blocks with
  | nil => exact settles_ok ()
  | cons b rest ih => exact (settles_block b).bind fun _ => ih

theorem body_document_eq_error_iff (o : Options) (d : Document) (failure : WriteFailure) :
    (body d = .error failure ↔ ∃ node, d.firstMissing? = some node ∧ failure = .missing node) ∧
    (document o d = .error failure ↔
      ∃ node, d.firstMissing? = some node ∧ failure = .missing node) := by
  have hBlocks := settles_blocks d.blocks
  rw [body_eq, mapM_block, document_eq]
  unfold Settles at hBlocks
  rw [Document.firstMissing?, Document.nodes]
  cases hMissing : (d.blocks.flatMap Block.nodes).findSome? Node.missing? with
  | some node =>
    rw [hMissing] at hBlocks
    rw [hBlocks]
    simp [Except.map, Except.mapError, eq_comm]
  | none =>
    rw [hMissing] at hBlocks
    obtain ⟨_, hBlocks⟩ := hBlocks
    rw [hBlocks]
    simp [Except.map, Except.mapError]

/-! ## Documents that were read -/

theorem exists_block {b : Block} (h : b.Proper) : ∃ t, block b = .ok t := by
  cases h with
  | equation _ _ hParse => exact exists_display hParse
  | paragraph _ _ => exact ⟨_, rfl⟩

/-- Writing fails exactly at missing nodes, and says of which sort the first one is. What is read
from a text has none: it consists of complete equations and of paragraphs that are trimmed and not
blank. -/
theorem writing_fails_iff_missing (o : Options) :
    (∀ d : Document,
      (∀ failure, body d = .error failure ↔
        ∃ node, d.firstMissing? = some node ∧ failure = .missing node) ∧
      (∀ failure, document o d = .error failure ↔
        ∃ node, d.firstMissing? = some node ∧ failure = .missing node) ∧
      (d.firstMissing?.isSome ↔ Block.missing ∈ d.blocks ∨
        ∃ e, Block.equation e ∈ d.blocks ∧ ∃ node ∈ e.nodes, node.missing?.isSome)) ∧
    ∀ t d, Document.parse t = .ok d →
      (∀ b ∈ d.blocks,
        (∃ e, b = .equation e ∧ ∀ node ∈ e.nodes, node.missing? = none) ∨
        ∃ content, b = .paragraph content ∧ content ≠ [] ∧ Text.trim content = content) ∧
      (∃ s, body d = .ok s) ∧ ∃ s, document o d = .ok s := by
  constructor
  · intro d
    exact ⟨fun failure => (body_document_eq_error_iff o d failure).1,
      fun failure => (body_document_eq_error_iff o d failure).2, Document.firstMissing?_isSome_iff⟩
  · intro t d h
    have hProper := Document.proper_of_parse h
    refine ⟨?_, ?_⟩
    · intro b hb
      have hNodes := (settles_block b).exists_ok_iff.mp (exists_block (hProper b hb))
      cases hProper b hb with
      | @equation _ e _ _ _ =>
        exact Or.inl ⟨e, rfl, fun node hNode => hNodes node (List.mem_cons_of_mem _ hNode)⟩
      | paragraph _ hText => exact Or.inr ⟨_, rfl, hText, Text.trim_trim _⟩
    · have hResult := blocksResult_eq_ok_iff.mpr fun b hb => exists_block (hProper b hb)
      obtain ⟨hDocument, s, hBody, _⟩ := document_of_blocksResult o hResult
      exact ⟨⟨s, hBody⟩, _, hDocument⟩

/-- Of an equation without its numerator and a missing block behind it, the first is reported. The
equation `y=frac(1,2)` can be read and is complete. -/
theorem writing_fails_iff_missing_fraction :
    body ⟨[.equation ⟨.identifier ['y'], .fraction .missing (.identifier ['2'])⟩, .missing]⟩ =
      .error (.missing .expression) ∧
    Document.parse "y=frac(1,2)".toList = .ok ⟨[.equation
      ⟨.identifier ['y'], .fraction (.identifier ['1']) (.identifier ['2'])⟩]⟩ ∧
    (∃ s, body ⟨[.equation
      ⟨.identifier ['y'], .fraction (.identifier ['1']) (.identifier ['2'])⟩]⟩ = .ok s) ∧
    ∃ s, document .default ⟨[.equation
      ⟨.identifier ['y'], .fraction (.identifier ['1']) (.identifier ['2'])⟩]⟩ = .ok s := by
  have hParse : Document.parse "y=frac(1,2)".toList = .ok ⟨[.equation
      ⟨.identifier ['y'], .fraction (.identifier ['1']) (.identifier ['2'])⟩]⟩ := by
    rw [Document.parse_eq_map_readLines]
    cbv
  obtain ⟨hFails, hReads⟩ := writing_fails_iff_missing .default
  exact ⟨((hFails _).1 _).mpr ⟨.expression, rfl, rfl⟩, hParse, (hReads _ _ hParse).2⟩

end Latex

end ProseMath
