import Mathlib.Data.List.TakeWhile
import Mathlib.Tactic.Common
import ProseMath.Command.Session

/-!
# Histories in files

A history is saved with one line for each entry, and loaded by lines. It comes back as it was if its
entries are lines of their own: short, without line feeds, without a carriage return at the end, and
valid as text.

* `pieces_typed`: lines that are typed one after another.
* `Kept`: histories that come back as they were.
* `load_save`: saving a history and loading it.
* `kept_load`: what is loaded comes back once more, carriage returns aside.
-/

namespace ProseMath.Command

/-! ## Lines -/

/-- Bytes that are a line of their own and stay one in a file. -/
structure IsEntry (line : List UInt8) : Prop where
  no_feed : lineFeed ∉ line
  short : line.length < lineLimit
  no_return : line.getLast? ≠ some carriageReturn
  valid : (ByteArray.mk line.toArray).validateUTF8

/-- The bytes of lines, each with its end. -/
def typed (lines : List (List UInt8)) : List UInt8 := lines.flatMap fun line => line ++ [lineFeed]

theorem firstPiece_of_isEntry {line : List UInt8} (h : IsEntry line) (rest : List UInt8) :
    firstPiece (line ++ lineFeed :: rest) = (⟨line, false⟩, rest) := by
  have hLine : (line ++ lineFeed :: rest).takeWhile (· ≠ lineFeed) = line := by
    rw [List.takeWhile_append_of_pos fun c hc => by
      simpa using fun hSame : c = lineFeed => h.no_feed (hSame ▸ hc)]
    simp
  rw [firstPiece, hLine, if_neg (Nat.not_le.mpr h.short), if_pos (by simp), dropReturn,
    if_neg h.no_return]
  simp

theorem pieces_typed {lines : List (List UInt8)} (h : ∀ line ∈ lines, IsEntry line) :
    pieces (typed lines) = lines.map (⟨·, false⟩) := by
  induction lines with
  | nil => rw [pieces, typed, List.flatMap_nil, dif_pos rfl, List.map_nil]
  | cons line lines ih =>
    rw [List.forall_mem_cons] at h
    have hTyped : typed (line :: lines) = line ++ lineFeed :: typed lines := by
      rw [typed, List.flatMap_cons, List.append_assoc]
      rfl
    rw [hTyped, pieces, dif_neg (by simp), firstPiece_of_isEntry h.1, ih h.2, List.map_cons]

theorem dropReturn_prefix (line : List UInt8) : dropReturn line <+: line := by
  rw [dropReturn]
  split_ifs
  · exact List.dropLast_prefix line
  · exact List.prefix_refl line

/-- A piece that is a whole line is short and has no line feed. -/
theorem firstPiece_whole {input : List UInt8} (h : (firstPiece input).1.isPart = false) :
    lineFeed ∉ (firstPiece input).1.bytes ∧ (firstPiece input).1.bytes.length < lineLimit := by
  have hFeed : lineFeed ∉ input.takeWhile (· ≠ lineFeed) := by
    intro hMem
    simpa using List.mem_takeWhile_imp hMem
  rw [firstPiece] at h ⊢
  by_cases hLong : lineLimit ≤ (input.takeWhile (· ≠ lineFeed)).length
  · rw [if_pos hLong] at h
    dsimp only at h
    split_ifs at h
  · rw [if_neg hLong]
    have hShort := Nat.not_le.mp hLong
    split_ifs with hEnd
    · have hLine := dropReturn_prefix (input.takeWhile (· ≠ lineFeed))
      exact ⟨fun hMem => hFeed (hLine.subset hMem), hLine.length_le.trans_lt hShort⟩
    · exact ⟨hFeed, hShort⟩

theorem pieces_whole {input : List UInt8} {piece : Piece} (h : piece ∈ pieces input)
    (hWhole : piece.isPart = false) : lineFeed ∉ piece.bytes ∧ piece.bytes.length < lineLimit := by
  fun_induction pieces input with
  | case1 => cases h
  | case2 input _ ih =>
    rcases List.mem_cons.mp h with rfl | h
    · exact firstPiece_whole hWhole
    · exact ih h

namespace History

/-! ## Saving and loading -/

theorem toList_loop (content : ByteArray) (i : Nat) (before : List UInt8) :
    ByteArray.toList.loop content i before = before.reverse ++ content.data.toList.drop i := by
  fun_induction ByteArray.toList.loop content i before with
  | case1 i before hi ih =>
    have hNext : i < content.data.toList.length := hi
    have hGet : content.get! i = content.data.toList[i] := by
      obtain ⟨bytes⟩ := content
      exact getElem!_pos bytes i hi
    rw [ih, List.drop_eq_getElem_cons hNext, hGet, List.reverse_cons, List.append_assoc]
    rfl
  | case2 i before hi =>
    have hEnd : content.data.toList.length ≤ i := Nat.le_of_not_lt hi
    rw [List.drop_eq_nil_of_le hEnd, List.append_nil]

theorem toList_mk (bytes : List UInt8) : (ByteArray.mk bytes.toArray).toList = bytes :=
  toList_loop ⟨bytes.toArray⟩ 0 []

/-- A history that comes back from its file as it was. -/
structure Kept (h : History) : Prop where
  length_le : h.length ≤ limit
  entries : ∀ line ∈ h, IsEntry line

theorem ofPieces_map {h : History} (hLines : ∀ line ∈ h, IsEntry line) :
    ofPieces (h.map (⟨·, false⟩)) = h := by
  induction h with
  | nil => rfl
  | cons line h ih =>
    rw [List.forall_mem_cons] at hLines
    rw [List.map_cons, ofPieces, ih hLines.2]
    simp [hLines.1.valid]

theorem load_save {h : History} (hKept : Kept h) : load (save h) = h := by
  rw [load, save, toList_mk, ← typed, pieces_typed hKept.entries, ofPieces_map hKept.entries, trim,
    Nat.sub_eq_zero_of_le hKept.length_le, List.drop_zero]

theorem exists_piece_of_mem_ofPieces {pieces : List Piece} {line : List UInt8}
    (h : line ∈ ofPieces pieces) :
    ∃ piece ∈ pieces, piece.bytes = line ∧ piece.isPart = false ∧
      (ByteArray.mk line.toArray).validateUTF8 := by
  induction pieces with
  | nil => cases h
  | cons piece pieces ih =>
    rw [ofPieces] at h
    split_ifs at h with hStop
    · cases h
    · rcases List.mem_cons.mp h with rfl | h
      · exact ⟨piece, List.mem_cons_self, rfl, by simpa using hStop⟩
      · obtain ⟨found, hFound, hLine⟩ := ih h
        exact ⟨found, List.mem_cons_of_mem _ hFound, hLine⟩

theorem length_trim_le (h : History) : (trim h).length ≤ limit := by
  rw [trim, List.length_drop]
  omega

/-- What was loaded comes back when it is saved, if no line of it ends in a carriage return. -/
theorem kept_load {content : ByteArray}
    (h : ∀ line ∈ load content, line.getLast? ≠ some carriageReturn) : Kept (load content) := by
  refine ⟨length_trim_le _, ?_⟩
  intro line hLine
  obtain ⟨piece, hPiece, rfl, hWhole, hValid⟩ :=
    exists_piece_of_mem_ofPieces (List.mem_of_mem_drop hLine)
  obtain ⟨hFeed, hShort⟩ := pieces_whole hPiece hWhole
  exact ⟨hFeed, hShort, h _ hLine, hValid⟩

namespace Kept

theorem nil : Kept [] := ⟨Nat.zero_le _, by simp⟩

theorem add {h : History} (hKept : Kept h) {line : List UInt8} (hLine : IsEntry line) :
    Kept (h.add line) := by
  rw [History.add]
  split_ifs
  · exact hKept
  · refine ⟨length_trim_le _, ?_⟩
    intro other hOther
    rcases List.mem_append.mp (List.mem_of_mem_drop hOther) with hOther | hOther
    · exact hKept.entries other hOther
    · rwa [List.mem_singleton.mp hOther]

end Kept

end History

end ProseMath.Command
