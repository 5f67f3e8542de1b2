import Mathlib.Data.List.Chain
import Mathlib.Tactic.Common
import ProseMath.Proofs.Expr.Grammar
import ProseMath.Proofs.Token.Spelling

/-!
# The normal form of expressions that were read

Operators nest to the right, so what stands in front of one is a name, a call, or a call with a
name before it (`Operand`). A sequence is flat: calls and the names between them, and only its last
item can be of another sort (`NormalItems`).

* `Row.normalItems`: items in a row make up a normal sequence.
* `Reads.shaped`: what each form of tokens is read as.
* `parse_normal`: every expression that is read is in normal form.
-/

namespace ProseMath.Expr

/-! ## Normal forms -/

def isIdentifier : Expr → Bool
  | .identifier _ => true
  | _ => false

/-- A sum or a fraction. -/
def isCall : Expr → Bool
  | .sum _ _ _ => true
  | .fraction _ _ => true
  | _ => false

def isSequence : Expr → Bool
  | .sequence _ => true
  | _ => false

/-- What stands in front of an operator. -/
inductive Operand : Expr → Prop
  | identifier (name : Text) : Operand (.identifier name)
  | call {e : Expr} (hCall : e.isCall) : Operand e
  | sequence (name : Text) {e : Expr} (hCall : e.isCall) :
    Operand (.sequence [.identifier name, e])

/-- The items of a sequence in normal form. -/
structure NormalItems (items : List Expr) : Prop where
  several : 2 ≤ items.length
  flat : ∀ item ∈ items, item.isSequence = false
  call : ∃ item ∈ items, item.isCall
  inner : ∀ item ∈ items.dropLast, item.isIdentifier ∨ item.isCall
  apart : items.IsChain fun a b => ¬ (a.isIdentifier ∧ b.isIdentifier)
  named : ∀ name, .identifier name ∈ items → name ≠ []

/-- An expression all of whose nodes are in normal form. -/
inductive Normal : Expr → Prop
  | identifier (name : Text) : Normal (.identifier name)
  | plus {left right : Expr} (hOperand : Operand left) (hLeft : Normal left)
    (hRight : Normal right) : Normal (.plus left right)
  | equation {lhs rhs : Expr} (hOperand : Operand lhs) (hLeft : Normal lhs)
    (hRight : Normal rhs) : Normal (.equation lhs rhs)
  | sum {lower upper body : Expr} (hLower : Normal lower) (hUpper : Normal upper)
    (hBody : Normal body) : Normal (.sum lower upper body)
  | fraction {numerator denominator : Expr} (hNumerator : Normal numerator)
    (hDenominator : Normal denominator) : Normal (.fraction numerator denominator)
  | sequence {items : List Expr} (hItems : NormalItems items)
    (hEach : ∀ item ∈ items, Normal item) : Normal (.sequence items)

theorem Normal.of_mem_items {e : Expr} (h : Normal e) : ∀ item ∈ e.items, Normal item := by
  cases h with
  | sequence _ hEach => exact hEach
  | identifier name => simpa [items] using Normal.identifier name
  | plus hOperand hLeft hRight => simpa [items] using Normal.plus hOperand hLeft hRight
  | equation hOperand hLeft hRight => simpa [items] using Normal.equation hOperand hLeft hRight
  | sum hLower hUpper hBody => simpa [items] using Normal.sum hLower hUpper hBody
  | fraction hNumerator hDenominator =>
    simpa [items] using Normal.fraction hNumerator hDenominator

theorem isSequence_of_isCall {e : Expr} (h : e.isCall) : e.isSequence = false := by
  cases e <;> first | rfl | cases h

theorem isIdentifier_of_isCall {e : Expr} (h : e.isCall) : e.isIdentifier = false := by
  cases e <;> first | rfl | cases h

theorem items_of_flat {e : Expr} (h : e.isSequence = false) : e.items = [e] := by
  cases e <;> first | rfl | cases h

/-! ## Items in a row -/

/-- Items as reading puts them in front of one another: calls, names in front of a call, and a last
item of any sort but a sequence. -/
inductive Row : List Expr → Prop
  | last {item : Expr} (hFlat : item.isSequence = false)
    (hNamed : ∀ name, item = .identifier name → name ≠ []) : Row [item]
  | call {item : Expr} {rest : List Expr} (hCall : item.isCall) (hRest : Row rest) :
    Row (item :: rest)
  | named {name : Text} {item : Expr} {rest : List Expr} (hName : name ≠ []) (hCall : item.isCall)
    (hRest : Row (item :: rest)) : Row (.identifier name :: item :: rest)

namespace Row

variable {items : List Expr}

theorem ne_nil (h : Row items) : items ≠ [] := by
  cases h <;> simp

theorem flat (h : Row items) : ∀ item ∈ items, item.isSequence = false := by
  induction h with
  | last hFlat _ => simpa using hFlat
  | call hCall _ ih => exact List.forall_mem_cons.mpr ⟨isSequence_of_isCall hCall, ih⟩
  | named _ _ _ ih => exact List.forall_mem_cons.mpr ⟨rfl, ih⟩

theorem inner (h : Row items) : ∀ item ∈ items.dropLast, item.isIdentifier ∨ item.isCall := by
  induction h with
  | last _ _ => simp
  | call hCall hRest ih =>
    rw [List.dropLast_cons_of_ne_nil hRest.ne_nil]
    exact List.forall_mem_cons.mpr ⟨Or.inr hCall, ih⟩
  | named _ _ _ ih =>
    rw [List.dropLast_cons_of_ne_nil (by simp)]
    exact List.forall_mem_cons.mpr ⟨Or.inl rfl, ih⟩

theorem apart (h : Row items) :
    items.IsChain fun a b => ¬ (a.isIdentifier ∧ b.isIdentifier) := by
  induction h with
  | last _ _ => exact .singleton _
  | call hCall _ ih =>
    refine ih.cons fun next _ hBoth => ?_
    rw [isIdentifier_of_isCall hCall] at hBoth
    cases hBoth.1
  | named _ hCall _ ih =>
    refine ih.cons_cons fun hBoth => ?_
    rw [isIdentifier_of_isCall hCall] at hBoth
    cases hBoth.2

theorem name_ne_nil (h : Row items) : ∀ name, .identifier name ∈ items → name ≠ [] := by
  intro name hMem
  induction h with
  | last _ hNamed => exact hNamed name (List.mem_singleton.mp hMem).symm
  | call hCall _ ih =>
    rcases List.mem_cons.mp hMem with rfl | hMem
    · cases hCall
    · exact ih hMem
  | named hName _ _ ih =>
    rcases List.mem_cons.mp hMem with hSame | hMem
    · cases hSame
      exact hName
    · exact ih hMem

theorem normalItems (h : Row items) (hSeveral : 2 ≤ items.length) : NormalItems items := by
  have hCall : ∃ item ∈ items, item.isCall := by
    cases h with
    | last _ _ => simp at hSeveral
    | call hCall _ => exact ⟨_, List.mem_cons_self, hCall⟩
    | named _ hCall _ => exact ⟨_, List.mem_cons_of_mem _ List.mem_cons_self, hCall⟩
  exact ⟨hSeveral, h.flat, hCall, h.inner, h.apart, h.name_ne_nil⟩

end Row

/-! ## A call with the text in front of it -/

/-- A call that follows a name, or nothing. -/
inductive Attached : Expr → Prop
  | alone {call : Expr} (hCall : call.isCall) : Attached call
  | named {name : Text} {call : Expr} (hName : name ≠ []) (hCall : call.isCall) :
    Attached (.sequence [.identifier name, call])

namespace Attached

variable {e : Expr}

theorem operand (h : Attached e) : Operand e := by
  cases h with
  | alone hCall => exact .call hCall
  | named _ hCall => exact .sequence _ hCall

theorem row_append (h : Attached e) {rest : List Expr} (hRest : Row rest) :
    Row (e.items ++ rest) := by
  cases h with
  | alone hCall =>
    rw [items_of_flat (isSequence_of_isCall hCall)]
    exact .call hCall hRest
  | named hName hCall => exact .named hName hCall (.call hCall hRest)

theorem row (h : Attached e) : Row e.items := by
  cases h with
  | @alone call hCall =>
    rw [items_of_flat (isSequence_of_isCall hCall)]
    refine .last (isSequence_of_isCall hCall) ?_
    rintro name rfl
    cases hCall
  | @named name call hName hCall =>
    refine .named hName hCall (.last (isSequence_of_isCall hCall) ?_)
    rintro name rfl
    cases hCall

end Attached

theorem attach_cases (before : List Token) {call : Expr} (hCall : call.isCall) :
    attach before call = call ∨ before ≠ [] ∧
      attach before call = .sequence [.identifier (Token.stringify before), call] := by
  unfold attach
  split
  · exact Or.inl rfl
  · rename_i hBefore
    refine Or.inr ⟨by simpa using hBefore, ?_⟩
    rw [juxtapose, items_of_flat (isSequence_of_isCall hCall)]
    rfl

/-! ## What is read -/

/-- The expression of tokens of a form. -/
structure Shaped (form : Form) (tokens : List Token) (e : Expr) : Prop where
  normal : Normal e
  operand : form ≠ .chain → Operand e
  attached : form = .call → Attached e
  row : tokens ≠ [] → Row e.items

theorem Attached.shaped {e : Expr} (h : Attached e) (hNormal : Normal e) (tokens : List Token) :
    Shaped .call tokens e :=
  ⟨hNormal, fun _ => h.operand, fun _ => h, fun _ => h.row⟩

theorem shaped_attach {before : List Token} {call : Expr}
    (hTexts : ∀ token ∈ before, token.text ≠ []) (hCall : call.isCall) (hNormal : Normal call)
    (tokens : List Token) : Shaped .call tokens (attach before call) := by
  rcases attach_cases before hCall with hAlone | ⟨hBefore, hNamed⟩
  · rw [hAlone]
    exact (Attached.alone hCall).shaped hNormal tokens
  · have hAttached := Attached.named (Token.stringify_ne_nil hTexts hBefore) hCall
    rw [hNamed]
    refine hAttached.shaped (.sequence (hAttached.row.normalItems (Nat.le_refl 2)) ?_) tokens
    simpa using ⟨Normal.identifier _, hNormal⟩

/-- An operator with its operands is in a row by itself. -/
theorem shaped_operator {tokens : List Token} {e : Expr} (hNormal : Normal e)
    (hFlat : e.isSequence = false) (hOther : e.isIdentifier = false) :
    Shaped .chain tokens e := by
  refine ⟨hNormal, fun hForm => absurd rfl hForm, (nomatch ·), fun _ => ?_⟩
  rw [items_of_flat hFlat]
  apply Row.last hFlat
  rintro name rfl
  cases hOther

theorem Reads.shaped {form : Form} {tokens : List Token} {e : Expr} (h : Reads form tokens e)
    (hTexts : ∀ token ∈ tokens, token.text ≠ []) : Shaped form tokens e := by
  induction h with
  | identifier _ =>
    refine ⟨.identifier _, fun _ => .identifier _, (nomatch ·), fun hTokens => ?_⟩
    apply Row.last rfl
    intro name hName
    cases hName
    exact Token.stringify_ne_nil hTexts hTokens
  | sum _ _ hTokens _ _ _ ihl ihu ihb =>
    obtain ⟨hBefore, hCall⟩ := List.forall_mem_append.mp hTexts
    have hGroup := hTokens.forall_mem (List.forall_mem_cons.mp hCall).2
    have hl := (ihl (hGroup _ (by simp))).normal
    have hu := (ihu (hGroup _ (by simp))).normal
    have hb := (ihb (hGroup _ (by simp))).normal
    exact shaped_attach hBefore rfl (.sum hl hu hb) _
  | fraction _ _ hTokens _ _ ihn ihd =>
    obtain ⟨hBefore, hCall⟩ := List.forall_mem_append.mp hTexts
    have hGroup := hTokens.forall_mem (List.forall_mem_cons.mp hCall).2
    have hn := (ihn (hGroup _ (by simp))).normal
    have hd := (ihd (hGroup _ (by simp))).normal
    exact shaped_attach hBefore rfl (.fraction hn hd) _
  | plus hForm _ _ _ ihl ihr =>
    obtain ⟨hLeft, hRest⟩ := List.forall_mem_append.mp hTexts
    have hl := ihl hLeft
    have hr := ihr (List.forall_mem_cons.mp hRest).2
    exact shaped_operator (.plus (hl.operand hForm) hl.normal hr.normal) rfl rfl
  | equation hForm _ _ _ ihl ihr =>
    obtain ⟨hLeft, hRest⟩ := List.forall_mem_append.mp hTexts
    have hl := ihl hLeft
    have hr := ihr (List.forall_mem_cons.mp hRest).2
    exact shaped_operator (.equation (hl.operand hForm) hl.normal hr.normal) rfl rfl
  | @juxtapose _ _ _ l r _ _ _ _ ihl ihr =>
    obtain ⟨hLeft, hRight⟩ := List.forall_mem_append.mp hTexts
    have hl := ihl hLeft
    have hr := ihr hRight
    -- the left side ends in a call, so no two names meet, and neither side has nested items
    have hRow : Row (l.items ++ r.items) := (hl.attached rfl).row_append (hr.row (by simp))
    have hEach : ∀ item ∈ l.items ++ r.items, Normal item :=
      List.forall_mem_append.mpr ⟨hl.normal.of_mem_items, hr.normal.of_mem_items⟩
    have hSeveral : 2 ≤ (l.items ++ r.items).length := by
      have hFirst := List.length_pos_iff.mpr (hl.attached rfl).row.ne_nil
      have hSecond := List.length_pos_iff.mpr (hr.row (by simp)).ne_nil
      rw [List.length_append]
      omega
    exact ⟨.sequence (hRow.normalItems hSeveral) hEach, fun hForm => absurd rfl hForm,
      (nomatch ·), fun _ => hRow⟩

/-- Every expression that is read from tokens with texts is in normal form. -/
theorem parse_normal {tokens : List Token} {e : Expr} (hTexts : ∀ token ∈ tokens, token.text ≠ [])
    (h : parse tokens = .ok e) : Normal e := by
  obtain ⟨_, hReads⟩ := reads_of_parse h
  exact (hReads.shaped hTexts).normal

/-- In `k frac(a, b) = 2 frac(c, d)sum(i = 1, n, i)e + f` a call with a name stands in front of the
equals sign, and behind it a sequence of four items, of which the last is an addition. -/
theorem parse_normal_product :
    ∃ call items, parse (tokenize "k frac(a, b) = 2 frac(c, d)sum(i = 1, n, i)e + f".toList) =
        .ok (.equation (.sequence [.identifier ['k'], call]) (.sequence items)) ∧
      items.length = 4 ∧
      Normal (.equation (.sequence [.identifier ['k'], call]) (.sequence items)) := by
  have hParse : parse (tokenize "k frac(a, b) = 2 frac(c, d)sum(i = 1, n, i)e + f".toList) =
      .ok (.equation
        (.sequence [.identifier ['k'], .fraction (.identifier ['a']) (.identifier ['b'])])
        (.sequence [.identifier ['2'], .fraction (.identifier ['c']) (.identifier ['d']),
          .sum (.equation (.identifier ['i']) (.identifier ['1'])) (.identifier ['n'])
            (.identifier ['i']),
          .plus (.identifier ['e']) (.identifier ['f'])])) := by cbv
  refine ⟨_, _, hParse, rfl, parse_normal ?_ hParse⟩
  exact fun token hToken => (Token.lexical_tokenize _ token hToken).spells.text_ne_nil

end ProseMath.Expr
