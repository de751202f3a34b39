/-
# Lines stay

A line that is given to a file stands on a line of its own, and every line that the file had stays
one: lines do not end in a carriage return here, so it does not matter that the end of the last line
is first written when another one follows. Giving a line is one change at one place (`Gives`), and a
file that has the line is left alone. So of any number of lines that a file was given, in any order,
each is there to stay (`ensureLine_once`).
-/

import Fleet.File.Line
import Fleet.Proofs.Host.Change
import Fleet.Proofs.Host.Path
import Fleet.Proofs.Text.Utf8

namespace Fleet

namespace Text

variable {a b l : List Char}

/-- The parts before a line feed are lines once they lost their carriage returns. -/
theorem lines_append (a b : List Char) :
    lines (a ++ '\n' :: b) = (splitOn '\n' a).map dropReturn ++ lines b := by
  have parts : splitOn '\n' b ≠ [] := splitOn_ne_nil '\n' b
  have last := List.getLast?_eq_some_getLast parts
  unfold lines
  dsimp only
  rw [splitOn_append, List.dropLast_append_of_ne_nil parts, List.map_append, List.getLast?_append,
    last, Option.some_or]
  split
  · rfl
  · rfl
  · exact List.append_assoc ..

theorem dropReturn_of_ne (bare : l.getLast? ≠ some '\r') : dropReturn l = l := by
  rw [dropReturn, if_neg bare]

theorem mem_parts_of_mem_lines (bare : l.getLast? ≠ some '\r') (member : l ∈ lines a) :
    l ∈ (splitOn '\n' a).map dropReturn := by
  have parts := List.dropLast_concat_getLast (splitOn_ne_nil '\n' a)
  have last := List.getLast?_eq_some_getLast (splitOn_ne_nil '\n' a)
  generalize (splitOn '\n' a).getLast (splitOn_ne_nil '\n' a) = final at parts last
  unfold lines at member
  dsimp only at member
  rw [last] at member
  rw [← parts, List.map_append]
  split at member
  · exact List.mem_append_left _ member
  · exact List.mem_append_left _ member
  · next found =>
      cases found
      rcases List.mem_append.1 member with before | last
      · exact List.mem_append_left _ before
      · rw [List.mem_singleton.1 last] at bare ⊢
        refine List.mem_append_right _ ?_
        rw [List.map_singleton, dropReturn_of_ne bare]
        exact List.mem_singleton_self _

end Text

namespace File

open Host
open Host.Attempt
open Host.FileSystem (endsWithSlash)
open Host.Machine (handler)
open Text.Utf8 (decodeLossy encode)

variable {data more : Bytes} {l l' : List Char}

/-- A line that is known whether it ends with a line feed alone or with a carriage return too. -/
def IsBare (l : List Char) : Prop := l.getLast? ≠ some '\r'

theorem isBare_bareLine (line : String) : IsBare (bareLine line) := by
  unfold IsBare bareLine Text.dropEndWhile
  rw [List.getLast?_reverse]
  intro ends
  have stops := List.head?_dropWhile_not isLineEnd line.toList.reverse
  rw [ends] at stops
  cases stops

theorem hasLine_iff : hasLine data l = true ↔ l ∈ Text.lines (decodeLossy data) := by
  rw [hasLine, List.contains_iff_mem]

/-- A line stays one when a line feed follows, and whatever follows that. -/
theorem hasLine_append (bare : IsBare l) (has : hasLine data l = true) :
    hasLine (data ++ 0x0a :: more) l = true := by
  rw [hasLine_iff] at has ⊢
  rw [Text.Utf8.decodeLossy_append, Text.lines_append]
  exact List.mem_append_left _ (Text.mem_parts_of_mem_lines bare has)

/-- A file that is not there, or holds nothing, has no line. -/
theorem hasLine_nil : hasLine [] l = false := by
  rw [hasLine, decodeLossy]
  rfl

/-- Bytes that are read as a line are one when a line feed follows. -/
theorem hasLine_of_decodeLossy (bare : IsBare l) (single : '\n' ∉ l)
    (read : decodeLossy data = l) : hasLine (data ++ [0x0a]) l = true := by
  rw [hasLine_iff, Text.Utf8.decodeLossy_append, read, Text.lines_append,
    Text.splitOn_of_not_mem single, List.map_singleton, Text.dropReturn_of_ne bare]
  exact List.mem_append_left _ (List.mem_singleton_self l)

theorem hasLine_append_right (has : hasLine more l = true) :
    hasLine (data ++ 0x0a :: more) l = true := by
  rw [hasLine_iff] at has ⊢
  rw [Text.Utf8.decodeLossy_append, Text.lines_append]
  exact List.mem_append_right _ has

/-- A file with a line behind what it had. A line feed stands between them where the file did not
end with one. -/
def withLine (old : Bytes) (l : List Char) : Bytes :=
  old ++ ((if old ≠ [] ∧ old.getLast? ≠ some 0x0a then [0x0a] else []) ++ (encode l ++ [0x0a]))

theorem append_addition (old : Bytes) (l : List Char) :
    old ++ addition old l = withLine old l := by
  have gap : encode (if old.isEmpty || old.getLast? = some 0x0a then [] else ['\n']) =
      if old ≠ [] ∧ old.getLast? ≠ some 0x0a then [0x0a] else [] := by
    by_cases ended : old = [] ∨ old.getLast? = some 0x0a
    · rw [if_pos (by simpa using ended), if_neg (by rw [← not_or]; exact not_not_intro ended)]
      rfl
    · rw [if_neg (by simpa using ended), if_pos (not_or.1 ended)]
      rfl
  unfold addition withLine
  dsimp only
  rw [← gap]
  simp only [encode, List.flatMap_append, List.append_assoc]
  rfl

/-- The bytes with a line added to them are that line, or the line behind a line feed. -/
theorem withLine_cases (old : Bytes) (l : List Char) :
    old = [] ∧ withLine old l = encode l ++ [0x0a] ∨
    ∃ before, (old = before ∨ old = before ++ [0x0a]) ∧
      withLine old l = before ++ 0x0a :: (encode l ++ [0x0a]) := by
  unfold withLine
  by_cases empty : old = []
  · subst empty
    exact .inl ⟨rfl, rfl⟩
  · refine .inr ?_
    by_cases ended : old.getLast? = some 0x0a
    · obtain ⟨before, rfl⟩ := List.getLast?_eq_some_iff.1 ended
      exact ⟨before, .inr rfl, by simp⟩
    · exact ⟨old, .inl rfl, by simp [empty, ended]⟩

theorem hasLine_withLine (bare : IsBare l) (single : '\n' ∉ l) :
    hasLine (withLine data l) l = true := by
  obtain ⟨_, same⟩ | ⟨before, _, same⟩ := withLine_cases data l
  · rw [same]
    exact hasLine_of_decodeLossy bare single (Text.Utf8.decodeLossy_encode l)
  · rw [same]
    exact hasLine_append_right (hasLine_of_decodeLossy bare single (Text.Utf8.decodeLossy_encode l))

/-- A file keeps its lines when it is given another one. -/
theorem hasLine_withLine_of_hasLine (bare : IsBare l) (has : hasLine data l = true) :
    hasLine (withLine data l') l = true := by
  obtain ⟨rfl, _⟩ | ⟨before, rfl | rfl, same⟩ := withLine_cases data l'
  · rw [hasLine_nil] at has
    cases has
  · rw [same]
    exact hasLine_append bare has
  · rw [same]
    rw [hasLine_iff, Text.Utf8.decodeLossy_append, Text.lines_append, decodeLossy] at has
    rw [hasLine_iff, Text.Utf8.decodeLossy_append, Text.lines_append]
    rcases List.mem_append.1 has with early | nothing
    · exact List.mem_append_left _ early
    · cases nothing

/-! ## Giving a line -/

variable {env : Environment} {m m' : Machine} {fs fs' : FileSystem} {path line : String}
variable {place : Location} {n : Node} {c : Bool} {old : Bytes}

/-- What the answer to reading comes to where a file need not be there. -/
def ifThere (path : String) : Except HostError Bytes → Except RunnerError (Option Bytes)
  | .ok data => .ok (some data)
  | .error e => if e = .notFound then .ok none else .error (.refused "read" path e)

theorem outcome_readIfThere :
    (readIfThere path).outcome = .ask (.read path) fun answer => .done (ifThere path answer) := by
  refine congrArg (Action.ask (.read path)) (funext fun answer => ?_)
  cases answer with
  | ok data => rfl
  | error e =>
      rw [ifThere]
      change Action.bind (outcome (if e = .notFound then pure none else throw e)) _ = _
      split <;> rfl

theorem yields_readIfThere {found : Option Bytes} :
    Yields (handler env) (readIfThere path) m found m' ↔ m' = m ∧
      match found with
      | some data => m.files.read env.directory path = .ok data
      | none => m.files.read env.directory path = .error .notFound := by
  unfold Yields
  rw [outcome_readIfThere]
  change (ifThere path (m.files.read env.directory path), m) = _ ↔ _
  rw [Prod.mk.injEq, and_comm, eq_comm (a := m)]
  refine and_congr_right fun _ => ?_
  cases m.files.read env.directory path with
  | ok data => cases found <;> simp [ifThere]
  | error e => by_cases missing : e = .notFound <;> cases found <;> simp [ifThere, missing]

/-- A path leads to a file that holds some bytes, or to nothing where one may be made, which holds
none. The node is that file before anything is written to it. -/
structure IsWritable (env : Environment) (fs : FileSystem) (path : String) (place : Location)
    (n : Node) (old : Bytes) : Prop where
  located : fs.locate env.directory path = .ok place
  slash : endsWithSlash path = false
  there : fs.find? place = some n ∨ fs.find? place = none ∧ n = fs.newFile env.maker place
  content : n.content = .file old

namespace IsWritable

/-- A file that is there may be written. -/
theorem of_lookup (found : fs.lookup env.directory path = .ok (place, n))
    (content : n.content = .file old) : IsWritable env fs path place n old := by
  obtain ⟨located, there, kind⟩ := FileSystem.lookup_eq_ok_iff.1 found
  refine ⟨located, Bool.eq_false_iff.2 fun ends => ?_, .inl there, content⟩
  have directory := kind ends
  rw [Node.isDirectory_of_file content] at directory
  cases directory

/-- So may one that is not there, where a path leads to nothing. -/
theorem of_missing (located : fs.locate env.directory path = .ok place)
    (slash : endsWithSlash path = false) (missing : fs.find? place = none) :
    IsWritable env fs path place (fs.newFile env.maker place) [] :=
  ⟨located, slash, .inr ⟨missing, rfl⟩, rfl⟩

section

variable (writable : IsWritable env fs path place n old)

include writable

theorem isDirectory : n.isDirectory = false := Node.isDirectory_of_file writable.content

theorem lookup (there : fs.find? place = some n) :
    fs.lookup env.directory path = .ok (place, n) :=
  FileSystem.lookup_eq_ok_iff.2 ⟨writable.located, there, by rw [writable.slash]; nofun⟩

/-- A file that is not there holds nothing. -/
theorem content_eq_nil (missing : fs.find? place = none) : old = [] := by
  rcases writable.there with there | ⟨-, rfl⟩
  · cases there.symm.trans missing
  · exact (Content.file.inj writable.content).symm

theorem eq_of_find? {n₀ : Node} (there : fs.find? place = some n₀) : n₀ = n := by
  rcases writable.there with here | ⟨missing, -⟩
  · exact Option.some.inj (there.symm.trans here)
  · cases missing.symm.trans there

/-- A file that has a line is there. -/
theorem find?_of_hasLine (has : hasLine old l = true) : fs.find? place = some n := by
  refine writable.there.resolve_right fun missing => ?_
  rw [writable.content_eq_nil missing.1, hasLine_nil] at has
  cases has

theorem isOk_info : (fs.info env.directory path).isOk = (fs.find? place).isSome := by
  rw [Bool.eq_iff_iff, FileSystem.isOk_info_iff, Option.isSome_iff_exists]
  constructor
  · rintro ⟨q, n', found⟩
    obtain ⟨located, there, -⟩ := FileSystem.lookup_eq_ok_iff.1 found
    obtain rfl := Except.ok.inj (located.symm.trans writable.located)
    exact ⟨n', there⟩
  · rintro ⟨n', there⟩
    refine ⟨place, n', FileSystem.lookup_eq_ok_iff.2 ⟨writable.located, there, ?_⟩⟩
    rw [writable.slash]
    nofun

theorem admits (n' : Node) : fs.admits place n' = true := by
  rcases writable.there with there | ⟨missing, -⟩
  · exact FileSystem.admits_of_find? there (by rw [writable.isDirectory]; nofun)
  · exact FileSystem.admits_of_locate writable.located missing

/-- The file with other bytes may be written again. -/
theorem put (data : Bytes) : IsWritable env (fs.put place { n with content := .file data }) path
    place { n with content := .file data } data := by
  have admitted := writable.admits { n with content := .file data }
  exact ⟨FileSystem.locate_of_keeps (FileSystem.keeps_put admitted) writable.located,
    writable.slash, .inl (FileSystem.find?_put_self admitted), rfl⟩

theorem read_put (data : Bytes) :
    (fs.put place { n with content := .file data }).read env.directory path = .ok data := by
  have there := FileSystem.find?_put_self (writable.admits { n with content := .file data })
  exact FileSystem.read_of_lookup ((writable.put data).lookup there) rfl

end

variable (writable : IsWritable env m.files path place n old)

include writable

/-- A file that is there is read as what it holds. One that is not there has no line either. -/
theorem exists_yields_read (l : List Char) : ∃ found : Option Bytes,
    Yields (handler env) (readIfThere path) m found m ∧ found.getD [] = old ∧
      (found.any fun bytes => hasLine bytes l) = hasLine old l := by
  rcases writable.there with there | ⟨missing, rfl⟩
  · exact ⟨some old, yields_readIfThere.2 ⟨rfl, FileSystem.read_of_lookup (writable.lookup there)
      writable.content⟩, rfl, rfl⟩
  · obtain rfl := Content.file.inj writable.content
    refine ⟨none, yields_readIfThere.2 ⟨rfl, ?_⟩, rfl, ?_⟩
    · unfold FileSystem.read FileSystem.lookup
      rw [writable.located]
      simp only [bind, Except.bind, missing]
      rfl
    · exact hasLine_nil.symm

/-- A file is opened at its end, and bytes are written there. -/
theorem yields_write (more : Bytes) : ∃ m₁,
    Yields (handler env) (Host.openEnd path) m () m₁ ∧
      Yields (handler env) (Host.append path more) m₁ ()
        (m.put place { n with content := .file (old ++ more) }) := by
  rcases writable.there with there | ⟨missing, new⟩
  · refine ⟨m, Machine.yields_openEnd.2 ⟨m.files, FileSystem.openEnd_eq_ok_iff.2 ?_, rfl⟩,
      Machine.yields_append (writable.lookup there) writable.content⟩
    exact ⟨place, writable.located, writable.slash, .inl ⟨n, there, writable.isDirectory, rfl⟩⟩
  · obtain rfl := writable.content_eq_nil missing
    have admitted := writable.admits n
    have found : (m.put place n).files.lookup env.directory path = .ok (place, n) :=
      FileSystem.lookup_put writable.located admitted (by rw [writable.slash]; nofun)
    have wrote : Yields (handler env) (Host.append path more) (m.put place n) ()
        ((m.put place n).put place { n with content := .file ([] ++ more) }) :=
      Machine.yields_append found writable.content
    rw [Machine.put_put admitted (by rw [writable.isDirectory]; nofun)] at wrote
    refine ⟨m.put place n, Machine.yields_openEnd.2 ⟨_, FileSystem.openEnd_eq_ok_iff.2 ?_, rfl⟩,
      wrote⟩
    exact ⟨place, writable.located, writable.slash, .inr ⟨missing, by rw [new]⟩⟩

end IsWritable

/-- A file that may be written is given a line unless it has it, and the answer tells which. -/
theorem IsWritable.yields_ensureLine (writable : IsWritable env m.files path place n old)
    (single : '\n' ∉ bareLine line) : Yields (handler env) (ensureLine path line) m
      (!hasLine old (bareLine line))
      (if hasLine old (bareLine line) = true then m
        else m.put place { n with content := .file (withLine old (bareLine line)) }) := by
  obtain ⟨found, read, held, has⟩ := writable.exists_yields_read (bareLine line)
  obtain ⟨m₁, opened, wrote⟩ := writable.yields_write (addition old (bareLine line))
  rw [append_addition] at wrote
  unfold ensureLine
  dsimp only
  rw [if_neg (by rwa [List.contains_iff_mem]), read.bind, has]
  by_cases present : hasLine old (bareLine line) = true
  · rw [if_pos present, if_pos present, present]
    exact yields_pure.2 ⟨rfl, rfl⟩
  · rw [if_neg present, if_neg present, (yields_mapError.2 opened).bind, held,
      (yields_mapError.2 wrote).bind, (yields_mapError.2 Machine.yields_flush).bind,
      Bool.eq_false_iff.2 present]
    exact yields_pure.2 ⟨rfl, rfl⟩

/-- The bytes of a file once it was given a line. -/
def givenLine (old : Bytes) (l : List Char) : Bytes :=
  if hasLine old l = true then old else withLine old l

theorem prefix_givenLine (old : Bytes) (l : List Char) : old <+: givenLine old l := by
  unfold givenLine
  split
  · exact List.prefix_refl old
  · exact List.prefix_append old _

theorem hasLine_givenLine (bare : IsBare l) (single : '\n' ∉ l) :
    hasLine (givenLine old l) l = true := by
  unfold givenLine
  split
  · next has => exact has
  · exact hasLine_withLine bare single

/-- A line that is missing makes a file longer. -/
theorem givenLine_eq_iff : givenLine old l = old ↔ hasLine old l = true := by
  unfold givenLine
  split
  · next has => exact iff_of_true rfl has
  · next missing =>
      refine iff_of_false (fun same => ?_) missing
      have lengths := congrArg List.length same
      simp [withLine] at lengths

/-- So giving a line to a file puts the file with its new bytes where the old one was. -/
theorem IsWritable.yields_givenLine (writable : IsWritable env m.files path place n old)
    (single : '\n' ∉ bareLine line) : Yields (handler env) (ensureLine path line) m
      (!hasLine old (bareLine line))
      (m.put place { n with content := .file (givenLine old (bareLine line)) }) := by
  have ensured := writable.yields_ensureLine single
  by_cases has : hasLine old (bareLine line) = true
  · have same : { n with content := .file old } = n := by rw [← writable.content]
    rw [givenLine, if_pos has, same, Machine.put_eq_self (writable.find?_of_hasLine has)]
    rwa [if_pos has] at ensured
  · rw [givenLine, if_neg has]
    rwa [if_neg has] at ensured

/-- A line is given, or found, on one line of a file that may be written, and nowhere else. -/
theorem exists_isWritable (ended : Yields (handler env) (ensureLine path line) m c m') :
    '\n' ∉ bareLine line ∧ ∃ place n old, IsWritable env m.files path place n old := by
  unfold ensureLine at ended
  dsimp only at ended
  split at ended
  · obtain ⟨_, _, thrown, _⟩ := yields_bind.1 ended
    exact absurd thrown not_yields_throw
  next clean =>
  refine ⟨by rwa [List.contains_iff_mem] at clean, ?_⟩
  obtain ⟨before, _, read, rest⟩ := yields_bind.1 ended
  obtain ⟨rfl, known⟩ := yields_readIfThere.1 read
  split at rest
  · next has =>
      obtain ⟨data, rfl, -⟩ := (Option.any_eq_true _ _).1 has
      obtain ⟨place, n, found, content⟩ := FileSystem.read_eq_ok_iff.1 known
      exact ⟨place, n, data, .of_lookup found content⟩
  · obtain ⟨_, _, opened, -⟩ := yields_bind.1 rest
    obtain ⟨_, opening, -⟩ := Machine.yields_openEnd.1 (yields_mapError.1 opened)
    obtain ⟨place, located, slash, ⟨n, there, file, -⟩ | ⟨missing, -⟩⟩ :=
      FileSystem.openEnd_eq_ok_iff.1 opening
    · obtain ⟨data, content⟩ := Node.content_of_isDirectory file
      exact ⟨place, n, data, located, slash, .inl there, content⟩
    · exact ⟨place, _, [], .of_missing located slash missing⟩

/-- The one change that gives a line to a file: a node put where the path leads, with what was there
before at its start. -/
structure Gives (env : Environment) (path : String) (l : List Char) (fs fs' : FileSystem)
    (place : Location) (n : Node) (data : Bytes) : Prop where
  located : fs.locate env.directory path = .ok place
  slash : endsWithSlash path = false
  admitted : fs.admits place n = true
  after : fs' = fs.put place n
  content : n.content = .file data
  has : hasLine data l = true
  grows : ∀ n₀, fs.find? place = some n₀ → ∃ old, n₀.content = .file old ∧
    (data = old ∨ data = withLine old l)

theorem yields_ensureLine (ended : Yields (handler env) (ensureLine path line) m c m') :
    '\n' ∉ bareLine line ∧
      ∃ place n data, Gives env path (bareLine line) m.files m'.files place n data := by
  obtain ⟨single, place, n, old, writable⟩ := exists_isWritable ended
  obtain ⟨-, rfl⟩ := ended.unique (writable.yields_givenLine single)
  refine ⟨single, place, _, givenLine old (bareLine line), writable.located, writable.slash,
    writable.admits _, rfl, rfl, hasLine_givenLine (isBare_bareLine line) single,
    fun n₀ here => ?_⟩
  obtain rfl := writable.eq_of_find? here
  refine ⟨old, writable.content, ?_⟩
  unfold givenLine
  split
  · exact .inl rfl
  · exact .inr rfl

theorem yields_ensureLine_of_hasLine {data : Bytes} (single : '\n' ∉ bareLine line)
    (found : m.files.lookup env.directory path = .ok (place, n)) (content : n.content = .file data)
    (has : hasLine data (bareLine line) = true) :
    Yields (handler env) (ensureLine path line) m false m := by
  have ensured := (IsWritable.of_lookup found content).yields_ensureLine single
  rwa [if_pos has, has] at ensured

/-! ## Giving many lines -/

/-- One attempt after the other to give a line to a file, whatever comes of each. -/
def ensureEach (path : String) (lines : List String) : Action (List (Except RunnerError Bool)) :=
  lines.mapM fun line => (ensureLine path line).outcome

/-- Every line of some bytes is a line of others. -/
def KeepsLines (old new : Bytes) : Prop :=
  ∀ l, IsBare l → hasLine old l = true → hasLine new l = true

/-- A line with a line feed in it is refused before anything is asked for. -/
theorem runWith_ensureLine_of_mem (broken : '\n' ∈ bareLine line) :
    ((ensureLine path line).outcome.runWith (handler env) m).2 = m := by
  unfold ensureLine
  dsimp only
  rw [if_pos (List.contains_iff_mem.2 broken)]
  rfl

/-- Whatever comes of an attempt, the file may be written again, has the lines that it had, and has
the line that was to be given unless that is none. -/
theorem IsWritable.after_ensureLine (writable : IsWritable env m.files path place n old)
    (line : String) : ∃ n' new,
      IsWritable env ((ensureLine path line).outcome.runWith (handler env) m).2.files path place
        n' new ∧ KeepsLines old new ∧
      ('\n' ∉ bareLine line → hasLine new (bareLine line) = true) := by
  by_cases broken : '\n' ∈ bareLine line
  · rw [runWith_ensureLine_of_mem broken]
    exact ⟨n, old, writable, fun _ _ has => has, fun single => absurd broken single⟩
  · rw [writable.yields_ensureLine broken]
    dsimp only
    split
    · next has => exact ⟨n, old, writable, fun _ _ has => has, fun _ => has⟩
    · exact ⟨_, _, writable.put _, fun _ bare has => hasLine_withLine_of_hasLine bare has,
        fun single => hasLine_withLine (isBare_bareLine line) single⟩

/-- Behind any number of attempts the file has every line that it had and every line that was to be
given. -/
theorem IsWritable.after_ensureEach (writable : IsWritable env m.files path place n old)
    (lines : List String) : ∃ n' new,
      IsWritable env ((ensureEach path lines).runWith (handler env) m).2.files path place n' new ∧
      KeepsLines old new ∧
      ∀ line ∈ lines, '\n' ∉ bareLine line → hasLine new (bareLine line) = true := by
  induction lines generalizing m n old with
  | nil => exact ⟨n, old, writable, fun _ _ has => has, nofun⟩
  | cons line lines ih =>
      obtain ⟨n₁, first, writable₁, kept₁, has₁⟩ := writable.after_ensureLine line
      obtain ⟨n', new, writable', kept, has⟩ := ih writable₁
      have run : ((ensureEach path (line :: lines)).runWith (handler env) m).2 =
          ((ensureEach path lines).runWith (handler env)
            ((ensureLine path line).outcome.runWith (handler env) m).2).2 := by
        rw [ensureEach, List.mapM_cons, Action.runWith_bind, Action.runWith_bind]
        rfl
      rw [run]
      refine ⟨n', new, writable', fun l bare held => kept l bare (kept₁ l bare held), ?_⟩
      rintro line' member single
      rcases List.mem_cons.1 member with rfl | later
      · exact kept _ (isBare_bareLine line') (has₁ single)
      · exact has line' later single

/-- A file that has a line is found to have it, and is left alone. -/
theorem IsWritable.yields_ensureLine_again (writable : IsWritable env m.files path place n old)
    (single : '\n' ∉ bareLine line) (has : hasLine old (bareLine line) = true) :
    Yields (handler env) (ensureLine path line) m false m := by
  have ensured := writable.yields_ensureLine single
  rwa [if_pos has, has] at ensured

/-- Giving a line to a file succeeds, whatever bytes the file holds and also if it is not there yet.
If the answer is that it was written, the file holds what it held and behind that the line alone,
after one line feed if it held something that did not end with one. If the answer is that it was
not, nothing changed; this is so exactly if the file had the line. Asked for again, the line is not
written again, and so after any number of attempts to give lines to the file each of them that is
one line is found there. -/
theorem ensureLine_once (writable : IsWritable env m.files path place n old) :
    (∀ line, '\n' ∉ bareLine line → ∃ written m',
      Yields (handler env) (ensureLine path line) m written m' ∧
      (written = true → m'.files.read env.directory path = .ok (withLine old (bareLine line)) ∧
        m' = m.put place { n with content := .file (withLine old (bareLine line)) }) ∧
      (written = false → m' = m) ∧ (written = false ↔ hasLine old (bareLine line) = true) ∧
      Yields (handler env) (ensureLine path line) m' false m') ∧
    ∀ lines, let last := ((ensureEach path lines).runWith (handler env) m).2
      ∀ line ∈ lines, '\n' ∉ bareLine line →
        Yields (handler env) (ensureLine path line) last false last := by
  refine ⟨fun line single => ?_, fun lines => ?_⟩
  · refine ⟨_, _, writable.yields_ensureLine single, ?_⟩
    by_cases has : hasLine old (bareLine line) = true
    · rw [if_pos has, has]
      exact ⟨nofun, fun _ => rfl, iff_of_true rfl rfl, writable.yields_ensureLine_again single has⟩
    · rw [if_neg has, Bool.eq_false_iff.2 has]
      have after := writable.put (withLine old (bareLine line))
      exact ⟨fun _ => ⟨writable.read_put _, rfl⟩, nofun, iff_of_false nofun nofun,
        after.yields_ensureLine_again single (hasLine_withLine (isBare_bareLine line) single)⟩
  · obtain ⟨n', new, writable', -, has⟩ := writable.after_ensureEach lines
    intro last line member single
    exact writable'.yields_ensureLine_again single (has line member single)

namespace Sample

/-- A file of two bytes that are no text and end no line. -/
def confNode : Node := ⟨.file [0x61, 0xff], 0o644, 0, 0⟩

def conf : Machine where
  files := (default : FileSystem).put [.name "conf"] confNode

end Sample

theorem ensureLine_once_sample :
    IsWritable {} Sample.conf.files "/conf" [.name "conf"] Sample.confNode [0x61, 0xff] ∧
    ∃ m', Yields (handler {}) (ensureLine "/conf" "b\r\n") Sample.conf true m' ∧
      m'.files.read [] "/conf" = .ok [0x61, 0xff, 0x0a, 0x62, 0x0a] ∧
      Yields (handler {}) (ensureLine "/conf" "b\r\n") m' false m' := by
  have found : Sample.conf.files.lookup [] "/conf" = .ok ([.name "conf"], Sample.confNode) := by
    decide +kernel
  have writable : IsWritable {} Sample.conf.files "/conf" [.name "conf"] Sample.confNode
      [0x61, 0xff] := .of_lookup found rfl
  have single : '\n' ∉ bareLine "b\r\n" := by decide +kernel
  obtain ⟨written, m', given, holds, -, known, again⟩ :=
    (ensureLine_once writable).1 "b\r\n" single
  have new : hasLine [0x61, 0xff] (bareLine "b\r\n") = false := by decide +kernel
  obtain rfl : written = true := by
    cases written with
    | true => rfl
    | false => cases new.symm.trans (known.1 rfl)
  exact ⟨writable, m', given, (holds rfl).1, again⟩

/-! ## Lines among the bytes -/

/-- The bytes without one carriage return at their end. -/
def dropReturn (b : Bytes) : Bytes := if b.getLast? = some 0x0d then b.dropLast else b

/-- The bytes between line feeds, each part without one carriage return at its end. -/
def byteLines (data : Bytes) : List Bytes := (data.splitOn 0x0a).map dropReturn

theorem dropReturn_decodeLossy (b : Bytes) :
    Text.dropReturn (decodeLossy b) = decodeLossy (dropReturn b) := by
  have same : (decodeLossy b).getLast? = some '\r' ↔ b.getLast? = some 0x0d :=
    Text.Utf8.getLast?_decodeLossy_iff (x := 0x0d) (by decide)
  unfold Text.dropReturn dropReturn
  by_cases ends : b.getLast? = some 0x0d
  · obtain ⟨before, rfl⟩ := List.getLast?_eq_some_iff.1 ends
    have read : decodeLossy (before ++ [0x0d]) = decodeLossy before ++ ['\r'] := by
      rw [Text.Utf8.decodeLossy_append_ascii (by decide), decodeLossy]
      rfl
    rw [if_pos (same.2 ends), if_pos ends, read, List.dropLast_concat, List.dropLast_concat]
  · rw [if_neg (mt same.1 ends), if_neg ends]

/-- A text is split at the line feeds of the bytes that it is read from. -/
theorem splitOn_decodeLossy (data : Bytes) :
    Text.splitOn '\n' (decodeLossy data) = (data.splitOn 0x0a).map decodeLossy := by
  have whole {a : Bytes} (outside : 0x0a ∉ a) : Text.splitOn '\n' (decodeLossy a) =
      (a.splitOn 0x0a).map decodeLossy := by
    have single : '\n' ∉ decodeLossy a := fun member =>
      outside (Text.Utf8.mem_of_mem_decodeLossy (by decide) member)
    rw [Text.splitOn_of_not_mem single, List.splitOn_eq_singleton outside, List.map_singleton]
  by_cases feed : 0x0a ∈ data
  · obtain ⟨a, b, cut, outside⟩ := List.eq_append_cons_of_mem feed
    rw [cut, Text.Utf8.decodeLossy_append, Text.splitOn_append, whole outside,
      splitOn_decodeLossy b, List.splitOn_append_cons_self, List.map_append]
  · exact whole feed
termination_by data.length
decreasing_by
  rw [cut, List.length_append, List.length_cons]
  omega

/-- A line of a file is read from some part of its bytes. -/
theorem exists_mem_byteLines (bare : IsBare l) (has : hasLine data l = true) :
    ∃ b ∈ byteLines data, decodeLossy b = l := by
  have parts := Text.mem_parts_of_mem_lines bare (hasLine_iff.1 has)
  rw [splitOn_decodeLossy, List.map_map] at parts
  obtain ⟨b, member, read⟩ := List.mem_map.1 parts
  rw [Function.comp_apply, dropReturn_decodeLossy] at read
  exact ⟨dropReturn b, List.mem_map_of_mem member, read⟩

/-- Bytes without line feeds that are read as a line are a part of the file once one follows. -/
theorem byteLines_concat {b : Bytes} (bare : IsBare l) (single : '\n' ∉ l)
    (read : decodeLossy b = l) : byteLines (b ++ [0x0a]) = [b, []] := by
  have outside : 0x0a ∉ b := by
    intro member
    obtain ⟨before, behind, rfl⟩ := List.append_of_mem member
    rw [← read, Text.Utf8.decodeLossy_append] at single
    exact single (List.mem_append_right _ List.mem_cons_self)
  have kept : dropReturn b = b := by
    refine if_neg fun ends => bare ?_
    rw [← read]
    exact (Text.Utf8.getLast?_decodeLossy_iff (x := 0x0d) (by decide)).2 ends
  rw [byteLines, List.splitOn_append_cons_self, List.splitOn_eq_singleton outside, List.splitOn_nil,
    List.map_append, List.map_singleton, kept]
  rfl

theorem byteLines_append (a b : Bytes) :
    byteLines (a ++ 0x0a :: b) = byteLines a ++ byteLines b := by
  rw [byteLines, List.splitOn_append_cons_self, List.map_append]
  rfl

/-- A line that is given to a file is among its bytes as it is written. -/
theorem encode_mem_byteLines (bare : IsBare l) (single : '\n' ∉ l) :
    encode l ∈ byteLines (withLine old l) := by
  have alone : encode l ∈ byteLines (encode l ++ [0x0a]) := by
    rw [byteLines_concat bare single (Text.Utf8.decodeLossy_encode l)]
    exact List.mem_cons_self
  obtain ⟨-, same⟩ | ⟨before, -, same⟩ := withLine_cases old l
  · rwa [same]
  · rw [same, byteLines_append]
    exact List.mem_append_right _ alone

/-- A path leads to a file with a line, byte for byte. -/
def Holds (env : Environment) (fs : FileSystem) (path : String) (l : List Char) : Prop :=
  ∃ data, fs.read env.directory path = .ok data ∧ encode l ∈ byteLines data

/-- Whenever giving a line succeeds, the file holds the line byte for byte, or else it was left as
it is, and some part of it that is no text was taken for the line. -/
theorem holds_or_of_ensureLine (ended : Yields (handler env) (ensureLine path line) m c m') :
    Holds env m'.files path (bareLine line) ∨ c = false ∧ m' = m ∧
      ∃ data, m.files.read env.directory path = .ok data ∧ ∃ b ∈ byteLines data,
        Text.Utf8.decode? b = none ∧ decodeLossy b = bareLine line := by
  have bare := isBare_bareLine line
  obtain ⟨single, place, n, old, writable⟩ := exists_isWritable ended
  obtain ⟨rfl, rfl⟩ := ended.unique (writable.yields_ensureLine single)
  by_cases has : hasLine old (bareLine line) = true
  · rw [if_pos has, has]
    have there := writable.find?_of_hasLine has
    have read := FileSystem.read_of_lookup (writable.lookup there) writable.content
    obtain ⟨b, member, taken⟩ := exists_mem_byteLines bare has
    cases exact_ : Text.Utf8.decode? b with
    | none => exact .inr ⟨rfl, rfl, old, read, b, member, exact_, taken⟩
    | some cs =>
        obtain rfl := (Text.Utf8.decodeLossy_of_decode? exact_).symm.trans taken
        rw [← Text.Utf8.encode_of_decode? exact_] at member
        exact .inl ⟨old, read, member⟩
  · rw [if_neg has]
    exact .inl ⟨_, writable.read_put _, encode_mem_byteLines bare single⟩

/-- So the file holds a line that has no replacement character. -/
theorem holds_of_ensureLine (ended : Yields (handler env) (ensureLine path line) m c m')
    (clean : '\uFFFD' ∉ bareLine line) : Holds env m'.files path (bareLine line) := by
  rcases holds_or_of_ensureLine ended with holds | ⟨-, rfl, data, read, b, member, -, taken⟩
  · exact holds
  · rw [← Text.Utf8.encode_of_decodeLossy taken clean] at member
    exact ⟨data, read, member⟩

/-- Some bytes that are no text are read as a line that has a replacement character. -/
theorem exists_decodeLossy_eq (broken : '\uFFFD' ∈ l) : ∃ b, decodeLossy b = l ∧ b ≠ encode l := by
  obtain ⟨before, behind, rfl⟩ := List.append_of_mem broken
  refine ⟨encode before ++ 0xff :: encode behind, ?_, fun same => ?_⟩
  · have first : Text.Utf8.decodeChar 0xff (encode behind) = (none, encode behind) := rfl
    rw [Text.Utf8.decodeLossy_encode_append, decodeLossy, first, Text.Utf8.decodeLossy_encode]
    rfl
  · -- a replacement character is written with three bytes
    have size : '\uFFFD'.utf8Size = 3 := rfl
    have lengths := congrArg List.length same
    simp [encode, size] at lengths
    omega

/-- On some machine a line with a replacement character is found in a file that does not hold
it. -/
theorem exists_not_holds (single : '\n' ∉ bareLine line) (broken : '\uFFFD' ∈ bareLine line) :
    ∃ env m, Yields (handler env) (ensureLine "/conf" line) m false m ∧
      ¬ Holds env m.files "/conf" (bareLine line) := by
  have bare := isBare_bareLine line
  obtain ⟨b, taken, other⟩ := exists_decodeLossy_eq broken
  let node : Node := ⟨.file (b ++ [0x0a]), 0o644, 0, 0⟩
  have located : (default : FileSystem).locate [] "/conf" = .ok [.name "conf"] := by
    decide +kernel
  have missing : (default : FileSystem).find? [.name "conf"] = none := by decide +kernel
  have found : ((default : FileSystem).put [.name "conf"] node).lookup [] "/conf" =
      .ok ([.name "conf"], node) :=
    FileSystem.lookup_put located (FileSystem.admits_of_locate located missing)
      fun ends => absurd ends (by decide +kernel)
  refine ⟨{}, { files := (default : FileSystem).put [.name "conf"] node },
    yields_ensureLine_of_hasLine single found rfl (hasLine_of_decodeLossy bare single taken), ?_⟩
  rintro ⟨data, read, member⟩
  obtain rfl := Except.ok.inj ((FileSystem.read_of_lookup found rfl).symm.trans read)
  rw [byteLines_concat bare single taken] at member
  rcases List.mem_cons.1 member with same | empty
  · exact other same.symm
  · have nothing : encode (bareLine line) = [] := List.mem_singleton.1 empty
    have read := Text.Utf8.decodeLossy_encode (bareLine line)
    rw [nothing, decodeLossy] at read
    rw [← read] at broken
    cases broken

end File

end Fleet
