import ProseMath.Command.Script
import ProseMath.Settings.Load

/-!
# Sessions

In a session lines are entered at a prompt and converted one by one. The lines that are not blank
are kept in a history, which is loaded from a file at the beginning and saved at the end.
-/

namespace ProseMath.Command

/-! ## Lines of bytes -/

/-- How many bytes of a line are read at once; a longer line comes in several pieces. -/
def lineLimit : Nat := 4096

/-- The byte of a line feed. -/
def lineFeed : UInt8 := 10

/-- The byte of a carriage return. -/
def carriageReturn : UInt8 := 13

/-- A piece of input: a line without its end, or a part of a line that is too long. -/
structure Piece where
  bytes : List UInt8
  isPart : Bool
deriving DecidableEq, Repr

/-- A line without a carriage return at its end. -/
def dropReturn (line : List UInt8) : List UInt8 :=
  if line.getLast? = some carriageReturn then line.dropLast else line

/-- The first piece of some input, which is not empty, and what is left. A carriage return at the
end of a part is left to the next piece. The last line may have no end. -/
def firstPiece (input : List UInt8) : Piece × List UInt8 :=
  let line := input.takeWhile (· ≠ lineFeed)
  if lineLimit ≤ line.length then
    let part := input.take lineLimit
    if part.getLast? = some carriageReturn then
      (⟨part.dropLast, true⟩, input.drop (lineLimit - 1))
    else (⟨part, true⟩, input.drop lineLimit)
  else if line.length < input.length then (⟨dropReturn line, false⟩, input.drop (line.length + 1))
  else (⟨line, false⟩, [])

theorem firstPiece_shorter {input : List UInt8} (h : input ≠ []) :
    (firstPiece input).2.length < input.length := by
  have hPositive := List.length_pos_iff.mpr h
  have hLimit : lineLimit = 4096 := rfl
  unfold firstPiece
  dsimp only
  repeat' split
  all_goals
    simp only [List.length_drop, List.length_nil]
    omega

/-- The pieces of some input. -/
def pieces (input : List UInt8) : List Piece :=
  if _h : input = [] then [] else (firstPiece input).1 :: pieces (firstPiece input).2
termination_by input.length
decreasing_by exact firstPiece_shorter _h

/-! ## Histories -/

/-- The lines entered so far, from the oldest on. -/
abbrev History := List (List UInt8)

namespace History

/-- How many lines a history keeps. -/
def limit : Nat := 1000

/-- A history without the oldest lines that are too many. -/
def trim (h : History) : History := h.drop (h.length - limit)

/-- A history with one more line, unless that is the same as the last one. -/
def add (h : History) (line : List UInt8) : History :=
  if h.getLast? = some line then h else trim (h ++ [line])

/-- The history in a file: its lines up to one that is too long or no text. -/
def ofPieces : List Piece → History
  | [] => []
  | piece :: rest =>
    if piece.isPart || !(ByteArray.mk piece.bytes.toArray).validateUTF8 then []
    else piece.bytes :: ofPieces rest

/-- The history in the bytes of a file. -/
def load (content : ByteArray) : History := trim (ofPieces (pieces content.toList))

/-- The bytes of the file that keeps a history, one line for each entry. -/
def save (h : History) : ByteArray := ⟨(h.flatMap fun line => line ++ [lineFeed]).toArray⟩

end History

/-! ## The prompt -/

variable {m : Type → Type} [Monad m] [Host m]

/-- What is printed before each line is read. -/
def prompt : Text := "htex> ".toList

/-- Converts an entered line, unless it is blank, and gives the history with it. -/
def enter (history : History) (line : List UInt8) : m History := do
  let t := Text.decode ⟨line.toArray⟩
  if (Text.trim t).isEmpty then return history
  match fragment t with
  | .ok latex => let _ ← (Host.print latex : m Bool)
  | .error f => Host.report (f.message ++ ['\n'])
  return history.add line

/-- Converts lines one after another and then meets the end of the input. -/
def enterAll (history : History) : List (List UInt8) → m History
  | [] => do
    let _ ← (Host.print prompt : m Bool)
    return history
  | line :: rest => do
    let _ ← (Host.print prompt : m Bool)
    enterAll (← enter history line) rest

/-- The file that keeps the history, if there is a home directory. -/
def historyPath? : m (Option Text) := do
  return (← Settings.home?).map fun home => Path.join home ".htex_history".toList

/-- The history that a file keeps; empty if it cannot be read. -/
def loadHistory (path : Option Text) : m History := do
  match path with
  | none => return []
  | some path =>
    match ← Host.read path with
    | .ok content => return History.load content
    | .error _ => return []

/-- Saves a history, if that is possible. -/
def saveHistory (path : Option Text) (history : History) : m Unit := do
  match path with
  | none => return
  | some path => let _ ← Host.write path history.save

/-- A session on lines of input. -/
def session (input : List UInt8) : m Unit := do
  let path ← historyPath?
  let history ← loadHistory path
  let history ← enterAll history ((pieces input).map Piece.bytes)
  saveHistory path history

end ProseMath.Command
