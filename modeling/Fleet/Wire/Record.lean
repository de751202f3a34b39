/-
# Records on a stream

A stream of records is bytes, one JSON value a line. Blank lines carry nothing. A reader goes on
after a line that it cannot decode; whoever reads decides whether to. The bytes come in pieces that
end anywhere, so a reader puts a line together from as many pieces as it takes.
-/

import Fleet.Json.Record
import Fleet.Json.Printer
import Fleet.Json.Reader
import Fleet.Text.Utf8

namespace Fleet.Wire

/-- Why a line yields no record. -/
inductive RecordError where
  /-- The line is no text, or the stream broke. -/
  | stream
  /-- The text is no record of the kind asked for. Records count from one. -/
  | decode (record : Nat)
  deriving DecidableEq, Repr

/-- The line that writes a value. -/
def encodeRecord (value : Json) : Bytes := Text.Utf8.encode (value.printChars ++ ['\n'])

/-- The byte that ends a line. -/
def lineFeed : UInt8 := 0x0A

/-- Put a byte before the first line. -/
def consLine (b : UInt8) : List Bytes → List Bytes
  | [] => [[b]]
  | line :: rest => (b :: line) :: rest

/-- The lines of a stream without the bytes that end them. What stands behind the last end of a
line is a line too, unless it is empty. -/
def lines : Bytes → List Bytes
  | [] => []
  | b :: rest => if b = lineFeed then [] :: lines rest else consLine b (lines rest)

/-- The text of a line, as JSON. -/
def readLine? {α : Type} (read : Json → Option α) (text : List Char) : Option α :=
  (Json.read? text).bind read

/-- Read the records of some lines, `count` records being read. -/
def readLines {α : Type} (read : Json → Option α) (count : Nat) :
    List Bytes → List (Except RecordError α)
  | [] => []
  | line :: rest =>
    match Text.Utf8.decode? line with
    | none => .error .stream :: readLines read count rest
    | some text =>
      if (Text.trim text).isEmpty then readLines read count rest
      else
        let first : Except RecordError α := match readLine? read text with
          | some record => .ok record
          | none => .error (.decode (count + 1))
        first :: readLines read (count + 1) rest

/-- The records of a stream. -/
def records {α : Type} (read : Json → Option α) (bytes : Bytes) : List (Except RecordError α) :=
  readLines read 0 (lines bytes)

/-- A piece of a stream: what a reader is given at a time, which is never nothing. -/
structure Piece where
  first : UInt8
  more : Bytes

/-- The bytes of a piece. -/
def Piece.bytes (p : Piece) : Bytes := p.first :: p.more

/-- The piece that is left where some bytes are. -/
def Piece.ofBytes : Bytes → List Piece
  | [] => []
  | first :: more => [⟨first, more⟩]

/-- Take one line off the pieces that are still to come, `begun` being what was read of it. What
stands behind the line in its last piece is still to come. -/
def takeLine? (begun : Bytes) : List Piece → Option (Bytes × List Piece)
  | [] => if begun.isEmpty then none else some (begun, [])
  | p :: rest =>
    match p.bytes.dropWhile (· ≠ lineFeed) with
    | [] => takeLine? (begun ++ p.bytes) rest
    | _ :: behind => some (begun ++ p.bytes.takeWhile (· ≠ lineFeed), Piece.ofBytes behind ++ rest)

theorem Piece.flatMap_ofBytes (bytes : Bytes) (rest : List Piece) :
    (ofBytes bytes ++ rest).flatMap Piece.bytes = bytes ++ rest.flatMap Piece.bytes := by
  cases bytes <;> rfl

/-- A line takes something off a stream. -/
theorem length_lt_of_takeLine? {begun line : Bytes} {pieces rest : List Piece}
    (taken : takeLine? begun pieces = some (line, rest)) :
    (rest.flatMap Piece.bytes).length < (begun ++ pieces.flatMap Piece.bytes).length := by
  induction pieces generalizing begun with
  | nil =>
      rw [takeLine?] at taken
      split at taken
      · cases taken
      · next some_ =>
          cases taken
          simpa [List.length_pos_iff] using some_
  | cons p pieces ih =>
      rw [takeLine?] at taken
      split at taken
      · have shorter := ih taken
        rwa [List.append_assoc, ← List.flatMap_cons] at shorter
      · next behind cut =>
          cases taken
          have within : behind.length < p.bytes.length := by
            have kept := (List.dropWhile_suffix (fun b => decide (b ≠ lineFeed))
              (l := p.bytes)).length_le
            rw [cut, List.length_cons] at kept
            exact kept
          rw [Piece.flatMap_ofBytes]
          simp only [List.flatMap_cons, List.length_append]
          omega

/-- The lines of a stream that comes in pieces. -/
def pieceLines (pieces : List Piece) : List Bytes :=
  match _taken : takeLine? [] pieces with
  | none => []
  | some (line, rest) => line :: pieceLines rest
termination_by (pieces.flatMap Piece.bytes).length
decreasing_by exact length_lt_of_takeLine? _taken

/-- The records of a stream that comes in pieces. -/
def pieceRecords {α : Type} (read : Json → Option α) (pieces : List Piece) :
    List (Except RecordError α) :=
  readLines read 0 (pieceLines pieces)

/-- The records before the first error, and that error if there is one. -/
def untilError {ε α : Type} : List (Except ε α) → List α × Option ε
  | [] => ([], none)
  | .error e :: _ => ([], some e)
  | .ok record :: rest => (record :: (untilError rest).1, (untilError rest).2)

/-- The items up to the first one that passes a test, that one included. -/
def through {α : Type} (stop : α → Bool) : List α → List α
  | [] => []
  | a :: rest => if stop a then [a] else a :: through stop rest

end Fleet.Wire
