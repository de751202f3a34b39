/-
# Streams of records

A record is written on one line of its own, so a stream of records is read line by line as the
records that were written, whatever texts they hold (`records_flatMap`). A line that is not blank
yields a record or none, and no line is read in the light of another. So a stream of written records
that is cut off inside the text of the last one is read as the whole records before it, and its last
line yields none (`lineRecords_cut`). Where the pieces end in which a stream arrives does not matter
(`pieceRecords_eq`).
-/

import Fleet.Proofs.Json.Brackets
import Fleet.Proofs.Json.Reader
import Fleet.Proofs.Json.Record
import Fleet.Proofs.Text.Split
import Fleet.Proofs.Text.Utf8
import Fleet.Wire.Record

namespace Fleet.Wire

variable {α β : Type} {read : Json → Option α} {line rest cut left : Bytes} {j : Json}
  {members : List (String × Json)} {count : Nat}

/-! ## Written records -/

/-- What stands before the first line feed is the first line. -/
theorem lines_append (single : lineFeed ∉ line) :
    lines (line ++ lineFeed :: rest) = line :: lines rest := by
  induction line with
  | nil => simp [lines]
  | cons b line ih =>
      have first : b ≠ lineFeed := fun same => single (same ▸ List.mem_cons_self)
      have later : lineFeed ∉ line := fun member => single (List.mem_cons_of_mem _ member)
      rw [List.cons_append, lines, if_neg first, ih later, consLine]

/-- The last line of a stream that is not ended. -/
theorem lines_of_notMem (single : lineFeed ∉ line) (begun : line ≠ []) : lines line = [line] := by
  induction line with
  | nil => exact absurd rfl begun
  | cons b tail ih =>
      have first : b ≠ lineFeed := fun same => single (same ▸ List.mem_cons_self)
      rw [lines, if_neg first]
      cases tail with
      | nil => rfl
      | cons c tail =>
          rw [ih (fun member => single (List.mem_cons_of_mem _ member)) (List.cons_ne_nil _ _),
            consLine]

theorem encodeRecord_eq (j : Json) :
    encodeRecord j = Text.Utf8.encode j.printChars ++ [lineFeed] := by
  rw [encodeRecord, Text.Utf8.encode, List.flatMap_append]
  rfl

theorem lines_encodeRecord (j : Json) :
    lines (encodeRecord j ++ rest) = Text.Utf8.encode j.printChars :: lines rest := by
  have single := Text.Utf8.lineFeed_notMem_encode (Json.newline_notMem_printChars j)
  rw [encodeRecord_eq, List.append_assoc, List.singleton_append, lines_append single]

/-- The line of a value yields the record that the value writes, unless it nests too deep. -/
theorem readLines_encode {a : α} {lines : List Bytes} (integral : j.IsIntegral)
    (inverse : read j = some a) :
    readLines read count (Text.Utf8.encode j.printChars :: lines) =
      (if j.depth < Json.depthLimit then .ok a else .error (.decode (count + 1))) ::
        readLines read (count + 1) lines := by
  obtain ⟨c, tail, written, dark, -⟩ := Json.exists_printChars_eq j
  have inked : (Text.trim j.printChars).isEmpty = false :=
    written ▸ Text.isEmpty_trim_cons dark
  have value : readLine? read j.printChars =
      if j.depth < Json.depthLimit then some a else none := by
    rw [readLine?, Json.read?_printChars_eq integral]
    split
    · exact inverse
    · rfl
  rw [readLines, Text.Utf8.decode?_encode]
  simp only [inked, value, Bool.false_eq_true, if_false]
  by_cases within : j.depth < Json.depthLimit
  · rw [if_pos within, if_pos within]
  · rw [if_neg within, if_neg within]

/-- A stream of written values is read value by value: as the records that the values write, and
with an error for each value that nests too deep. -/
theorem records_flatMap_eq {write : β → Json} {image : β → α} {l : List β}
    (integral : ∀ b ∈ l, (write b).IsIntegral)
    (inverse : ∀ b ∈ l, read (write b) = some (image b)) :
    records read (l.flatMap fun b => encodeRecord (write b)) = l.mapIdx fun i b =>
      if (write b).depth < Json.depthLimit then .ok (image b) else .error (.decode (i + 1)) := by
  have from_ (count : Nat) : readLines read count
      (lines (l.flatMap fun b => encodeRecord (write b))) = l.mapIdx fun i b =>
        if (write b).depth < Json.depthLimit then .ok (image b)
        else .error (.decode (count + i + 1)) := by
    induction l generalizing count with
    | nil => rfl
    | cons b l ih =>
        obtain ⟨integral, laterIntegral⟩ := List.forall_mem_cons.1 integral
        obtain ⟨inverse, laterInverse⟩ := List.forall_mem_cons.1 inverse
        rw [List.flatMap_cons, lines_encodeRecord, readLines_encode integral inverse,
          ih laterIntegral laterInverse, List.mapIdx_cons, Nat.add_zero]
        simp only [Nat.add_assoc, Nat.add_comm 1]
  unfold records
  simpa only [Nat.zero_add] using from_ 0

/-- A stream of written values is read as the records that the values write, in their order. -/
theorem records_flatMap {write : β → Json} {image : β → α} {l : List β}
    (integral : ∀ b ∈ l, (write b).IsIntegral) (within : ∀ b ∈ l, (write b).depth < Json.depthLimit)
    (inverse : ∀ b ∈ l, read (write b) = some (image b)) :
    records read (l.flatMap fun b => encodeRecord (write b)) = l.map fun b => .ok (image b) := by
  rw [records_flatMap_eq integral inverse]
  apply List.ext_getElem
  · rw [List.length_mapIdx, List.length_map]
  · intro i _ inside
    rw [List.length_map] at inside
    rw [List.getElem_mapIdx, List.getElem_map, if_pos (within _ (List.getElem_mem inside))]

/-! ## The lines of a stream -/

/-- Whether a line carries something. Bytes that are no text do. -/
def isInked (line : Bytes) : Bool :=
  (Text.Utf8.decode? line).all fun text => !(Text.trim text).isEmpty

/-- The record on a line. -/
def lineRecord? (read : Json → Option α) (line : Bytes) : Option α :=
  (Text.Utf8.decode? line).bind (readLine? read)

/-- What the lines of a stream yield, one by one. Blank lines carry nothing. -/
def lineRecords (read : Json → Option α) (bytes : Bytes) : List (Option α) :=
  ((lines bytes).filter isInked).map (lineRecord? read)

theorem map_toOption_readLines {ls : List Bytes} : (readLines read count ls).map Except.toOption =
    (ls.filter isInked).map (lineRecord? read) := by
  induction ls generalizing count with
  | nil => rfl
  | cons line rest ih =>
      rw [readLines, List.filter_cons]
      split
      · next broken =>
          have inked : isInked line = true := by rw [isInked, broken, Option.all_none]
          have nothing : lineRecord? read line = none := by rw [lineRecord?, broken]; rfl
          rw [if_pos inked, List.map_cons, List.map_cons, ih, nothing]
          rfl
      · next text decoded =>
          have inked : isInked line = !(Text.trim text).isEmpty := by
            rw [isInked, decoded, Option.all_some]
          have record : lineRecord? read line = readLine? read text := by
            rw [lineRecord?, decoded, Option.bind_some]
          by_cases blank : (Text.trim text).isEmpty = true
          · rw [if_pos blank, inked, blank, ih]
            rfl
          · rw [if_neg blank, inked, if_pos (by simpa using blank), List.map_cons, List.map_cons,
              ih, record]
            cases readLine? read text with
            | none => rfl
            | some a => rfl

/-- The records of a stream, without what was wrong with a line. -/
theorem map_toOption_records {bytes : Bytes} :
    (records read bytes).map Except.toOption = lineRecords read bytes := map_toOption_readLines

/-! ## Whole records -/

theorem lines_flatMap_encodeRecord {β : Type} {write : β → Json} {l : List β} :
    lines ((l.flatMap fun b => encodeRecord (write b)) ++ rest) =
      l.map (fun b => Text.Utf8.encode (write b).printChars) ++ lines rest := by
  induction l with
  | nil => rfl
  | cons b l ih => rw [List.flatMap_cons, List.append_assoc, lines_encodeRecord, ih,
      List.map_cons, List.cons_append]

theorem lineRecord?_encode (cs : List Char) :
    lineRecord? read (Text.Utf8.encode cs) = readLine? read cs := by
  rw [lineRecord?, Text.Utf8.decode?_encode, Option.bind_some]

/-- A line that starts with a brace is not blank. -/
theorem isInked_brace (line : Bytes) : isInked (0x7b :: line) = true := by
  have decoded : Text.Utf8.decode? (0x7b :: line) =
      (Text.Utf8.decode? line).map ('\x7b' :: ·) := by
    rw [Text.Utf8.decode?]
    rfl
  rw [isInked, decoded, Option.all_map]
  cases Text.Utf8.decode? line with
  | none => rfl
  | some text =>
      have dark : (Text.trim ('\x7b' :: text)).isEmpty = false := Text.isEmpty_trim_cons rfl
      exact congrArg not dark

/-! ## Cuts -/

/-- The bytes of an object start with a brace. -/
theorem encode_printChars_obj (members : List (String × Json)) : ∃ more,
    Text.Utf8.encode (Json.obj members).printChars = 0x7b :: more := ⟨_, rfl⟩

section Cut

variable (whole : Text.Utf8.encode (Json.obj members).printChars = cut ++ left)

include whole

theorem lineFeed_notMem_cut : lineFeed ∉ cut := by
  intro member
  have inside : lineFeed ∈ Text.Utf8.encode (Json.obj members).printChars :=
    whole ▸ List.mem_append_left left member
  exact Text.Utf8.lineFeed_notMem_encode (Json.newline_notMem_printChars _) inside

theorem isInked_cut (begun : cut ≠ []) : isInked cut = true := by
  obtain ⟨more, starts⟩ := encode_printChars_obj members
  cases cut with
  | nil => exact absurd rfl begun
  | cons b tail =>
      obtain ⟨rfl, -⟩ := List.cons.inj (starts.symm.trans whole)
      exact isInked_brace tail

/-- A cut of the text of an object yields no record. -/
theorem lineRecord?_cut (short : left ≠ []) : lineRecord? read cut = none := by
  -- A cut inside a character is no text at all.
  cases decoded : Text.Utf8.decode? cut with
  | none => rw [lineRecord?, decoded, Option.bind_none]
  | some text =>
      obtain ⟨behind, some_, split⟩ := Text.Utf8.exists_append_of_decode? whole short decoded
      rw [lineRecord?, decoded, Option.bind_some, readLine?, Json.read?_of_cut split some_,
        Option.bind_none]

end Cut

/-- Objects are read from whole lines, and no record from the cut that stands behind them. -/
theorem lineRecords_cut {β : Type} {write : β → Json} {l : List β}
    (objects : ∀ b ∈ l, ∃ m, write b = .obj m)
    (whole : Text.Utf8.encode (Json.obj members).printChars = cut ++ left) (begun : cut ≠ [])
    (short : left ≠ []) :
    lineRecords read ((l.flatMap fun b => encodeRecord (write b)) ++ cut) =
      (l.map fun b => readLine? read (write b).printChars) ++ [none] := by
  have last : lines cut = [cut] := lines_of_notMem (lineFeed_notMem_cut whole) begun
  have inked : ∀ line ∈ l.map fun b => Text.Utf8.encode (write b).printChars,
      isInked line = true := by
    refine List.forall_mem_map.2 fun b member => ?_
    obtain ⟨m, object⟩ := objects b member
    obtain ⟨more, starts⟩ := encode_printChars_obj m
    rw [object, starts]
    exact isInked_brace more
  have kept : [cut].filter isInked = [cut] :=
    List.filter_eq_self.2 (List.forall_mem_singleton.2 (isInked_cut whole begun))
  rw [lineRecords, lines_flatMap_encodeRecord, last, List.filter_append,
    List.filter_eq_self.2 inked, kept, List.map_append, List.map_map, List.map_singleton,
    lineRecord?_cut whole short]
  simp only [Function.comp_def, lineRecord?_encode]

/-! ## Pieces -/

theorem eq_append_of_dropWhile {bytes behind : Bytes} {b : UInt8}
    (cut : bytes.dropWhile (· ≠ lineFeed) = b :: behind) :
    bytes = bytes.takeWhile (· ≠ lineFeed) ++ lineFeed :: behind := by
  have ended : b = lineFeed := by
    have stop := List.head?_dropWhile_not (fun b => decide (b ≠ lineFeed)) bytes
    rw [cut] at stop
    simpa using stop
  calc bytes = bytes.takeWhile (· ≠ lineFeed) ++ bytes.dropWhile (· ≠ lineFeed) :=
        List.takeWhile_append_dropWhile.symm
    _ = bytes.takeWhile (· ≠ lineFeed) ++ lineFeed :: behind := by rw [cut, ended]

/-- The line that is taken off the pieces of a stream is the first line of the stream. -/
theorem lines_eq_of_takeLine? {begun : Bytes} (single : lineFeed ∉ begun) (pieces : List Piece) :
    lines (begun ++ pieces.flatMap Piece.bytes) = match takeLine? begun pieces with
      | none => []
      | some (line, rest) => line :: lines (rest.flatMap Piece.bytes) := by
  induction pieces generalizing begun with
  | nil =>
      rw [List.flatMap_nil, List.append_nil, takeLine?]
      cases begun with
      | nil => rfl
      | cons b more => exact lines_of_notMem single (List.cons_ne_nil b more)
  | cons p pieces ih =>
      rw [takeLine?, List.flatMap_cons, ← List.append_assoc]
      cases cut : p.bytes.dropWhile (· ≠ lineFeed) with
      | nil =>
          have none_ : lineFeed ∉ p.bytes := fun member => by
            simpa using List.dropWhile_eq_nil_iff.1 cut lineFeed member
          exact ih (List.not_mem_append single none_)
      | cons b behind =>
          have none_ : lineFeed ∉ p.bytes.takeWhile (· ≠ lineFeed) := fun member => by
            simpa using List.mem_takeWhile_imp member
          have whole : begun ++ p.bytes ++ pieces.flatMap Piece.bytes =
              begun ++ p.bytes.takeWhile (· ≠ lineFeed) ++
                lineFeed :: (behind ++ pieces.flatMap Piece.bytes) := by
            conv_lhs => rw [eq_append_of_dropWhile cut]
            simp only [List.append_assoc, List.cons_append]
          rw [whole, lines_append (List.not_mem_append single none_), ← Piece.flatMap_ofBytes]

/-- Wherever the pieces of a stream end, its lines are the same. -/
theorem pieceLines_eq (pieces : List Piece) :
    pieceLines pieces = lines (pieces.flatMap Piece.bytes) := by
  induction pieces using pieceLines.induct with
  | case1 pieces taken =>
      have first := lines_eq_of_takeLine? List.not_mem_nil pieces
      rw [taken, List.nil_append] at first
      rw [first, pieceLines]
      split
      · rfl
      · next again => cases taken.symm.trans again
  | case2 pieces line rest taken ih =>
      have first := lines_eq_of_takeLine? List.not_mem_nil pieces
      rw [taken, List.nil_append] at first
      rw [first, pieceLines]
      split
      · next again => cases taken.symm.trans again
      · next again =>
          cases taken.symm.trans again
          rw [ih]

theorem pieceRecords_eq (pieces : List Piece) :
    pieceRecords read pieces = records read (pieces.flatMap Piece.bytes) := by
  rw [pieceRecords, pieceLines_eq, records]

end Fleet.Wire
