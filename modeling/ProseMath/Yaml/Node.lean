import ProseMath.Yaml.Token

/-!
# YAML: nodes

The tokens of a document are read by recursive descent. Where a node is expected and none stands
there, it is the empty plain scalar. A reader gives a node and the tokens behind it, which are
fewer, or in the case of `Rest` not more.
-/

namespace ProseMath.Yaml

/-- A node of a document. -/
inductive Node where
  | scalar (t : Text) (isPlain : Bool)
  | sequence (items : List Node)
  | mapping (entries : List (Node × Node))

/-- The node that stands where nothing is written. -/
def Node.empty : Node := .scalar [] true

/-- A value and the tokens behind it, fewer than before. -/
structure Read (α : Type) (tokens : List Token) where
  value : α
  rest : List Token
  fewer : rest.length < tokens.length

/-- A value and the tokens behind it, not more than before. -/
structure Rest (α : Type) (tokens : List Token) where
  value : α
  rest : List Token
  notMore : rest.length ≤ tokens.length

mutual

/-- A node. Outside brackets it may be a block; `bare` allows a sequence that is not indented. -/
def node (block bare : Bool) (tokens : List Token) : Option (Read Node tokens) :=
  match tokens with
  | .scalar t isPlain :: rest => some ⟨.scalar t isPlain, rest, Nat.lt_succ_self _⟩
  | .sequenceOpen :: rest =>
    match flowItems true rest with
    | none => none
    | some r => some ⟨.sequence r.value, r.rest, Nat.lt_succ_of_lt r.fewer⟩
  | .mappingOpen :: rest =>
    match flowEntries true rest with
    | none => none
    | some r => some ⟨.mapping r.value, r.rest, Nat.lt_succ_of_lt r.fewer⟩
  | .blockSequence :: rest =>
    if block then
      match blockItems rest with
      | none => none
      | some r => some ⟨.sequence r.value, r.rest, Nat.lt_succ_of_lt r.fewer⟩
    else none
  | .blockMapping :: rest =>
    if block then
      match blockEntries rest with
      | none => none
      | some r => some ⟨.mapping r.value, r.rest, Nat.lt_succ_of_lt r.fewer⟩
    else none
  | .item :: rest =>
    if bare then
      match bareItems rest with
      | none => none
      | some r => some ⟨.sequence r.value, r.rest, Nat.lt_succ_of_le r.notMore⟩
    else none
  | _ => none
termination_by (tokens.length, 0)

/-- A node, or the empty one in front of a token that can follow it. -/
def nodeOr (block bare : Bool) (stops : List Token) (tokens : List Token) :
    Option (Rest Node tokens) :=
  match tokens.head? with
  | none => some ⟨.empty, tokens, Nat.le_refl _⟩
  | some token =>
    if stops.contains token then some ⟨.empty, tokens, Nat.le_refl _⟩
    else match node block bare tokens with
      | none => none
      | some r => some ⟨r.value, r.rest, Nat.le_of_lt r.fewer⟩
termination_by (tokens.length, 1)

/-- The items of an indented sequence. -/
def blockItems (tokens : List Token) : Option (Read (List Node) tokens) :=
  match tokens with
  | .item :: rest =>
    match nodeOr true false [.item, .blockEnd] rest with
    | none => none
    | some first =>
      match blockItems first.rest with
      | none => none
      | some more => some ⟨first.value :: more.value, more.rest,
          Nat.lt_succ_of_lt (Nat.lt_of_lt_of_le more.fewer first.notMore)⟩
  | .blockEnd :: rest => some ⟨[], rest, Nat.lt_succ_self _⟩
  | _ => none
termination_by (tokens.length, 2)
decreasing_by
  · exact Prod.Lex.left _ _ (by simp)
  · have := first.notMore
    exact Prod.Lex.left _ _ (by simp only [List.length_cons]; omega)

/-- The items of a sequence that is not indented, behind the first hyphen. -/
def bareItems (tokens : List Token) : Option (Rest (List Node) tokens) :=
  match nodeOr true false [.item, .key, .value, .blockEnd] tokens with
  | none => none
  | some first =>
    match _h : first.rest with
    | .item :: rest =>
      match bareItems rest with
      | none => none
      | some more => some ⟨first.value :: more.value, more.rest, by
          have hFirst := first.notMore
          have hMore := more.notMore
          rw [_h, List.length_cons] at hFirst
          omega⟩
    | rest => some ⟨[first.value], rest, by rw [← _h]; exact first.notMore⟩
termination_by (tokens.length, 2)
decreasing_by
  · exact Prod.Lex.right _ (by omega)
  · have := first.notMore
    rw [_h, List.length_cons] at this
    exact Prod.Lex.left _ _ (by omega)

/-- The entries of an indented mapping. -/
def blockEntries (tokens : List Token) : Option (Read (List (Node × Node)) tokens) :=
  match tokens with
  | .key :: rest =>
    match nodeOr true true [.key, .value, .blockEnd] rest with
    | none => none
    | some name =>
      match entryValue true true [.key, .value, .blockEnd] name.rest with
      | none => none
      | some content =>
        match blockEntries content.rest with
        | none => none
        | some more => some ⟨(name.value, content.value) :: more.value, more.rest, by
            have hName := name.notMore
            have hContent := content.notMore
            have hMore := more.fewer
            simp only [List.length_cons]
            omega⟩
  | .blockEnd :: rest => some ⟨[], rest, Nat.lt_succ_self _⟩
  | _ => none
termination_by (tokens.length, 3)
decreasing_by
  · exact Prod.Lex.left _ _ (by simp)
  · have := name.notMore
    exact Prod.Lex.left _ _ (by simp only [List.length_cons]; omega)
  · have := name.notMore
    have := content.notMore
    exact Prod.Lex.left _ _ (by simp only [List.length_cons]; omega)

/-- The value of an entry, empty if there is no colon. -/
def entryValue (block bare : Bool) (stops : List Token) (tokens : List Token) :
    Option (Rest Node tokens) :=
  match tokens with
  | .value :: rest =>
    match nodeOr block bare stops rest with
    | none => none
    | some r => some ⟨r.value, r.rest, Nat.le_succ_of_le r.notMore⟩
  | tokens => some ⟨.empty, tokens, Nat.le_refl _⟩
termination_by (tokens.length, 2)

/-- The key of an entry that stands as an item in brackets. If it is empty, the token behind it does
not count. -/
def itemKey (tokens : List Token) : Option (Rest Node tokens) :=
  match tokens with
  | .value :: rest | .comma :: rest | .sequenceClose :: rest =>
    some ⟨.empty, rest, Nat.le_succ _⟩
  | tokens =>
    match node false false tokens with
    | none => none
    | some r => some ⟨r.value, r.rest, Nat.le_of_lt r.fewer⟩
termination_by (tokens.length, 1)

/-- The items of a sequence in brackets; `first` tells that no comma is needed. An entry of a
mapping may stand as an item. -/
def flowItems (first : Bool) (tokens : List Token) : Option (Read (List Node) tokens) :=
  match tokens with
  | .sequenceClose :: rest => some ⟨[], rest, Nat.lt_succ_self _⟩
  | .comma :: rest =>
    if first then none
    else
      match flowItems true rest with
      | none => none
      | some r => some ⟨r.value, r.rest, Nat.lt_succ_of_lt r.fewer⟩
  | .key :: rest =>
    if first then
      match itemKey rest with
      | none => none
      | some name =>
        match entryValue false false [.comma, .sequenceClose] name.rest with
        | none => none
        | some content =>
          match flowItems false content.rest with
          | none => none
          | some more => some ⟨.mapping [(name.value, content.value)] :: more.value, more.rest, by
              have hName := name.notMore
              have hContent := content.notMore
              have hMore := more.fewer
              simp only [List.length_cons]
              omega⟩
    else none
  | tokens =>
    if first then
      match node false false tokens with
      | none => none
      | some item =>
        match flowItems false item.rest with
        | none => none
        | some more => some ⟨item.value :: more.value, more.rest,
            Nat.lt_trans more.fewer item.fewer⟩
    else none
termination_by (tokens.length, 3)
decreasing_by
  · exact Prod.Lex.left _ _ (by simp)
  · exact Prod.Lex.left _ _ (by simp)
  · have := name.notMore
    exact Prod.Lex.left _ _ (by simp only [List.length_cons]; omega)
  · have := name.notMore
    have := content.notMore
    exact Prod.Lex.left _ _ (by simp only [List.length_cons]; omega)
  · exact Prod.Lex.right _ (by omega)
  · exact Prod.Lex.left _ _ item.fewer

/-- The entries of a mapping in braces; `first` tells that no comma is needed. -/
def flowEntries (first : Bool) (tokens : List Token) : Option (Read (List (Node × Node)) tokens) :=
  match tokens with
  | .mappingClose :: rest => some ⟨[], rest, Nat.lt_succ_self _⟩
  | .comma :: rest =>
    if first then none
    else
      match flowEntries true rest with
      | none => none
      | some r => some ⟨r.value, r.rest, Nat.lt_succ_of_lt r.fewer⟩
  | .key :: rest =>
    if first then
      match nodeOr false false [.value, .comma, .mappingClose] rest with
      | none => none
      | some name =>
        match entryValue false false [.comma, .mappingClose] name.rest with
        | none => none
        | some content =>
          match flowEntries false content.rest with
          | none => none
          | some more => some ⟨(name.value, content.value) :: more.value, more.rest, by
              have hName := name.notMore
              have hContent := content.notMore
              have hMore := more.fewer
              simp only [List.length_cons]
              omega⟩
    else none
  | tokens =>
    if first then
      match node false false tokens with
      | none => none
      | some name =>
        match flowEntries false name.rest with
        | none => none
        | some more => some ⟨(name.value, .empty) :: more.value, more.rest,
            Nat.lt_trans more.fewer name.fewer⟩
    else none
termination_by (tokens.length, 3)
decreasing_by
  · exact Prod.Lex.left _ _ (by simp)
  · exact Prod.Lex.left _ _ (by simp)
  · have := name.notMore
    exact Prod.Lex.left _ _ (by simp only [List.length_cons]; omega)
  · have := name.notMore
    have := content.notMore
    exact Prod.Lex.left _ _ (by simp only [List.length_cons]; omega)
  · exact Prod.Lex.right _ (by omega)
  · exact Prod.Lex.left _ _ name.fewer

end

/-- The first document of some tokens, none if there is no document, and the tokens behind it. -/
def firstDocument? (tokens : List Token) : Option (Option Node × List Token) :=
  match tokens with
  | [] => some (none, [])
  | .documentStart :: rest =>
    (nodeOr true false [.documentStart, .documentEnd] rest).map fun r => (some r.value, r.rest)
  | tokens => (node true false tokens).map fun r => (some r.value, r.rest)

/-- The first document of a text. What follows it matters only as far as it has to be cut. So far
the text must have no anchor, alias, tag, block scalar or directive: it is refused as if it were
malformed, although YAML has them. -/
def parse? (t : Text) : Option (Option Node) := do
  let cut ← cut? t
  let (document, rest) ← firstDocument? cut.tokens
  if cut.reaches (cut.tokens.length - rest.length) then return document else none

end ProseMath.Yaml
