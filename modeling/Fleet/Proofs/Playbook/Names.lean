/-
# Lists of names

Lists of names are written in one line with commas, as a sequence with one name for each item, or as
a sequence of such lines. Blanks before the first name of a line, behind its last one and behind a
comma belong to no name. Blanks before a comma stay with the name that they follow: so a list is
taken as it is meant exactly if there are none (`names_compiled`).

A handler is notified by its name, which is taken as it is written. A task whose list holds a blank
before a comma therefore notifies another handler than the one that it seems to name
(`blank_before_comma`).
-/

import Fleet.Proofs.Job.Play
import Fleet.Proofs.Playbook.Fields
import Fleet.Proofs.Text.Split

namespace Fleet.Shorthand

/-- A name as a line lists it: with blanks before it and behind it. -/
structure Entry where
  gap : List Char
  name : String
  stray : List Char
  gap_blank : gap.all Text.isBlank = true := by decide +kernel
  stray_blank : stray.all Text.isBlank = true := by decide +kernel
  name_ne : name ≠ "" := by decide +kernel
  name_trimmed : Text.trimmed name = name := by decide +kernel
  comma_notMem : ',' ∉ name.toList := by decide +kernel

variable {e : Entry} {l : List Entry}

namespace Entry

/-- The entry as it is written. -/
def text (e : Entry) : List Char := e.gap ++ (e.name.toList ++ e.stray)

theorem isBlank_of_mem_gap {c : Char} : c ∈ e.gap → Text.isBlank c = true :=
  List.all_eq_true.1 e.gap_blank c

theorem isBlank_of_mem_stray {c : Char} : c ∈ e.stray → Text.isBlank c = true :=
  List.all_eq_true.1 e.stray_blank c

theorem toList_name_ne_nil : e.name.toList ≠ [] := fun nothing =>
  e.name_ne (String.toList_eq_nil_iff.1 nothing)

variable (e) in
theorem trim_name : Text.trim e.name.toList = e.name.toList := by
  have same := congrArg String.toList e.name_trimmed
  rwa [Text.trimmed, String.toList_ofList] at same

/-- A name has no blank at its start, whatever stands behind it. -/
theorem head?_name_append {rest : List Char} :
    (e.name.toList ++ rest).head?.any Text.isBlank = false := by
  rw [List.head?_append_of_ne_nil _ toList_name_ne_nil]
  exact (Text.trim_eq_self_iff.1 e.trim_name).1

theorem comma_notMem_blanks {blanks : List Char}
    (blank : ∀ c ∈ blanks, Text.isBlank c = true) : ',' ∉ blanks := fun inside =>
  absurd (blank ',' inside) (by decide)

end Entry

/-- The line that lists entries. -/
def lineOf (l : List Entry) : String := String.ofList (Text.join [','] (l.map Entry.text))

/-- A line from its first name up to its last one. -/
def body : List Entry → List Char
  | [] => []
  | [e] => e.name.toList
  | e :: next :: l => e.name.toList ++ e.stray ++ ',' :: (next.gap ++ body (next :: l))

/-- What is taken for the names of a line: a name that a comma follows keeps the blanks between
them. -/
def taken : List Entry → List String
  | [] => []
  | [e] => [e.name]
  | e :: next :: l => (e.name ++ String.ofList e.stray) :: taken (next :: l)

/-! ## The names of a line -/

/-- Around a line from its first name up to its last one there are blanks alone. -/
theorem join_text (e : Entry) (l : List Entry) : ∃ behind : List Char,
    (∀ c ∈ behind, Text.isBlank c = true) ∧
      Text.join [','] ((e :: l).map Entry.text) = e.gap ++ (body (e :: l) ++ behind) := by
  induction l generalizing e with
  | nil => exact ⟨e.stray, fun _ => Entry.isBlank_of_mem_stray, rfl⟩
  | cons next l ih =>
      obtain ⟨behind, blank, whole⟩ := ih next
      refine ⟨behind, blank, ?_⟩
      rw [List.map_cons, List.map_cons, Text.join_cons_cons, ← List.map_cons, whole, Entry.text,
        body]
      simp only [List.append_assoc, List.cons_append, List.nil_append]

theorem exists_body_cons (e : Entry) (l : List Entry) :
    ∃ rest, body (e :: l) = e.name.toList ++ rest := by
  cases l with
  | nil => exact ⟨[], (List.append_nil _).symm⟩
  | cons next l => exact ⟨_, List.append_assoc _ _ _⟩

theorem getLast?_body (e : Entry) (l : List Entry) :
    (body (e :: l)).getLast?.any Text.isBlank = false := by
  induction l generalizing e with
  | nil => exact (Text.trim_eq_self_iff.1 e.trim_name).2
  | cons next l ih =>
      obtain ⟨rest, start⟩ := exists_body_cons next l
      have some_ : body (next :: l) ≠ [] := by
        rw [start]
        exact List.append_ne_nil_of_left_ne_nil Entry.toList_name_ne_nil rest
      rw [body, List.getLast?_append_of_ne_nil _ (List.cons_ne_nil _ _), ← List.singleton_append,
        ← List.append_assoc, List.getLast?_append_of_ne_nil _ some_]
      exact ih next

theorem trim_join_text (l : List Entry) :
    Text.trim (Text.join [','] (l.map Entry.text)) = body l := by
  cases l with
  | nil => rfl
  | cons e l =>
      obtain ⟨behind, blank, whole⟩ := join_text e l
      obtain ⟨rest, start⟩ := exists_body_cons e l
      rw [whole, Text.trim_append (fun _ => Entry.isBlank_of_mem_gap) blank]
      refine Text.trim_eq_self_iff.2 ⟨?_, getLast?_body e l⟩
      rw [start]
      exact Entry.head?_name_append

/-- In a text without a blank at its start the first part is stripped at its start as well. -/
theorem splitCommas_eq {cs : List Char} (stop : cs.head?.any Text.isBlank = false) :
    splitCommas cs = (Text.splitOn ',' cs).map Text.trimStart := by
  obtain ⟨part, parts, split, start⟩ : ∃ part parts, Text.splitOn ',' cs = part :: parts ∧
      part.head?.any Text.isBlank = false := by
    cases cs with
    | nil => exact ⟨[], [], rfl, rfl⟩
    | cons c rest =>
        rw [Text.splitOn]
        split
        · exact ⟨[], _, rfl, rfl⟩
        · cases split : Text.splitOn ',' rest with
          | nil => exact absurd split (Text.splitOn_ne_nil ',' rest)
          | cons part parts => exact ⟨c :: part, parts, rfl, stop⟩
  rw [splitCommas, split, List.mapIdx_cons, if_pos rfl, List.map_cons, Text.trimStart,
    Text.dropWhile_eq_self start]
  congr 1
  simp [List.mapIdx_eq_iff]

theorem trimStart_name {blanks : List Char} (blank : ∀ c ∈ blanks, Text.isBlank c = true)
    (rest : List Char) :
    Text.trimStart (blanks ++ (e.name.toList ++ rest)) = e.name.toList ++ rest :=
  Text.dropWhile_run blank Entry.head?_name_append

/-- Whatever blanks stand before a line, its parts stripped at their starts are what is taken. -/
theorem map_trimStart_splitOn (e : Entry) (l : List Entry) (blanks : List Char)
    (blank : ∀ c ∈ blanks, Text.isBlank c = true) :
    (Text.splitOn ',' (blanks ++ body (e :: l))).map Text.trimStart =
      (taken (e :: l)).map String.toList := by
  induction l generalizing e blanks with
  | nil =>
      have whole : ',' ∉ blanks ++ e.name.toList := by
        simp [Entry.comma_notMem_blanks blank, e.comma_notMem]
      have kept := trimStart_name (e := e) blank []
      rw [List.append_nil] at kept
      rw [body, Text.splitOn_of_not_mem whole, List.map_singleton, kept]
      rfl
  | cons next l ih =>
      -- What stands before the comma is one part. Only its start is stripped, so it keeps its end.
      have behind : ',' ∉ e.stray := Entry.comma_notMem_blanks fun _ => Entry.isBlank_of_mem_stray
      have first : ',' ∉ blanks ++ (e.name.toList ++ e.stray) := by
        simp [Entry.comma_notMem_blanks blank, e.comma_notMem, behind]
      have gap : ∀ c ∈ next.gap, Text.isBlank c = true := fun _ => Entry.isBlank_of_mem_gap
      rw [body, ← List.append_assoc, Text.splitOn_append, Text.splitOn_of_not_mem first,
        List.singleton_append, List.map_cons, trimStart_name blank, ih next _ gap, taken,
        List.map_cons, String.toList_append, String.toList_ofList]

theorem ne_empty_of_mem_taken {name : String} (member : name ∈ taken l) : name ≠ "" := by
  induction l with
  | nil => cases member
  | cons e l ih =>
      cases l with
      | nil =>
          rw [List.mem_singleton.1 member]
          exact e.name_ne
      | cons next l =>
          rcases List.mem_cons.1 member with rfl | later
          · exact fun nothing => e.name_ne (String.append_eq_empty_iff.1 nothing).1
          · exact ih later

/-- The names of a line are what is taken from its entries. -/
theorem names_lineOf (l : List Entry) : names (lineOf l) = taken l := by
  -- Empty parts are dropped, but an entry has a name and so none of its parts is empty.
  have kept : ((taken l).map String.toList).filter (fun part => !part.isEmpty) =
      (taken l).map String.toList := by
    rw [List.filter_eq_self]
    intro part member
    obtain ⟨name, listed, rfl⟩ := List.mem_map.1 member
    simpa using ne_empty_of_mem_taken listed
  have parts : (splitCommas (body l)).filter (fun part => !part.isEmpty) =
      (taken l).map String.toList := by
    cases l with
    | nil => rfl
    | cons e l =>
        obtain ⟨rest, start⟩ := exists_body_cons e l
        have split := map_trimStart_splitOn e l [] nofun
        rw [List.nil_append] at split
        rw [splitCommas_eq (start ▸ Entry.head?_name_append), split, kept]
  rw [names, lineOf, String.toList_ofList, trim_join_text, parts, List.map_map]
  simp

/-! ## Where the names are as they are meant -/

theorem length_taken (l : List Entry) : (taken l).length = l.length := by
  induction l with
  | nil => rfl
  | cons e l ih =>
      cases l with
      | nil => rfl
      | cons next l => exact congrArg (· + 1) ih

/-- A line is taken as it is meant exactly if no blank stands before a comma. -/
theorem taken_eq_iff (l : List Entry) :
    taken l = l.map Entry.name ↔ ∀ e ∈ l.dropLast, e.stray = [] := by
  induction l with
  | nil => simp [taken]
  | cons e l ih =>
      cases l with
      | nil => simp [taken]
      | cons next l =>
          have kept : e.name ++ String.ofList e.stray = e.name ↔ e.stray = [] := by
            rw [String.append_eq_left_iff]
            simp
          rw [taken, List.map_cons, List.cons.injEq, kept, ih, List.dropLast_cons_cons,
            List.forall_mem_cons]

theorem flatMap_taken_eq_iff (lines : List (List Entry)) :
    lines.flatMap taken = lines.flatMap (·.map Entry.name) ↔
      ∀ l ∈ lines, ∀ e ∈ l.dropLast, e.stray = [] := by
  induction lines with
  | nil => simp
  | cons l lines ih =>
      have length : (taken l).length = (l.map Entry.name).length := by
        rw [length_taken, List.length_map]
      rw [List.flatMap_cons, List.flatMap_cons, List.forall_mem_cons, ← taken_eq_iff, ← ih]
      constructor
      · exact fun same => List.append_inj same length
      · rintro ⟨first, later⟩
        rw [first, later]

end Fleet.Shorthand

namespace Fleet.Compile

open Shorthand (Entry lineOf taken)

variable {runners : List String} {raw value : Json} {lines : List (List Entry)}
  {t : Task} {p : Play}

/-! ## Names in a document -/

/-- The ways to write a list of names: one line, or a sequence of lines. A line with one entry
writes a single name. -/
inductive Writes : Json → List (List Entry) → Prop
  | line (l : List Entry) : Writes (.str (lineOf l)) [l]
  | sequence {items : List Json} {lines : List (List Entry)}
      (each : List.Forall₂ (fun item l => scalarText? item = some (lineOf l)) items lines) :
      Writes (.arr items) lines

/-- Reading a list of names does not fail, and takes the entries of its lines. -/
theorem readNames_eq_of_writes (field : String) (writes : Writes value lines) :
    readNames field value = .ok (lines.flatMap taken) := by
  cases writes with
  | line l => rw [readNames, Shorthand.names_lineOf, List.flatMap_singleton]
  | sequence each =>
      next items =>
      have read : items.mapM (readString field) = .ok (lines.map lineOf) := by
        rw [mapM_eq_ok_iff, List.forall₂_map_right_iff]
        exact each.imp fun _ _ => readString_eq_ok_iff.2
      refine bind_eq_ok_iff.2 ⟨lines.map lineOf, read, ?_⟩
      simp only [List.flatMap_map, Shorthand.names_lineOf]
      rfl

theorem namesOf_eq_of_writes (writes : Writes value lines) :
    namesOf value = lines.flatMap taken :=
  (eq_namesOf (readNames_eq_of_writes "" writes)).symm

/-- The lists of names of a compiled task, as its mapping writes them, and its own name. -/
structure TaskNames (runners : List String) (raw : Json) (t : Task) : Prop where
  name : t.name = ((tells? runners "name" raw).map textOf).getD ""
  notify : ∀ value lines, tells? runners "notify" raw = some value → Writes value lines →
    t.notify = lines.flatMap taken
  tags : ∀ value lines, tells? runners "tags" raw = some value → Writes value lines →
    t.tags = lines.flatMap taken

/-- The lists of names of a compiled play, as its mapping writes them. -/
structure PlayNames (runners : List String) (raw : Json) (p : Play) : Prop where
  hosts : ∀ value lines, raw.member? "hosts" = some value → Writes value lines →
    p.hosts = lines.flatMap taken
  tasks : ∃ written : List Task, p.tasks = written.flatMap Task.expand ∧
    List.Forall₂ (fun raw t => ∀ copy ∈ t.expand, TaskNames runners raw copy)
      (under "tasks" raw) written
  handlers : List.Forall₂ (TaskNames runners) (under "handlers" raw) p.handlers

theorem ReadFrom.names (read : ReadFrom runners raw t) : TaskNames runners raw t where
  name := read.name
  notify value lines told writes := by
    rw [read.notify, told, Option.map_some, Option.getD_some, namesOf_eq_of_writes writes]
  tags value lines told writes := by
    rw [read.tags, told, Option.map_some, Option.getD_some, namesOf_eq_of_writes writes]

/-- A copy of a task for an item has the names of the task. -/
theorem TaskNames.of_mem_expand {copy : Task} (names : TaskNames runners raw t)
    (member : copy ∈ t.expand) : TaskNames runners raw copy := by
  obtain ⟨-, rfl⟩ | ⟨item, rfl⟩ := Task.eq_or_eq_forItem member
  · exact names
  · exact ⟨names.name, names.notify, names.tags⟩

theorem PlayReadFrom.names (read : PlayReadFrom runners raw p) :
    PlayNames runners raw { p with tasks := p.tasks.flatMap Task.expand } where
  hosts value lines told writes := by
    rw [read.hosts, told, Option.map_some, Option.getD_some, namesOf_eq_of_writes writes]
  tasks := by
    refine ⟨p.tasks, rfl, read.tasks.imp ?_⟩
    intro raw t task copy member
    exact task.names.of_mem_expand member
  handlers := read.handlers.imp fun _ _ => ReadFrom.names

theorem names_of_compile {document : Json} {c : Compilation}
    (compiled : compile runners document = .ok c) :
    List.Forall₂ (PlayNames runners) (itemsOf document) c.playbook.plays := by
  obtain ⟨plays, each, expanded⟩ := readFrom_of_compile compiled
  rw [expanded, Playbook.expandLoops_eq, List.forall₂_map_right_iff]
  exact each.imp fun _ _ => PlayReadFrom.names

end Fleet.Compile

namespace Fleet

open Compile
open Shorthand (Entry lineOf taken)

/-- Behind a result that changed something a handler is handed to its runner exactly if its name was
notified before or is in the list of names of the task or of the result. -/
theorem Dispatcher.runStep_handler (d : Dispatcher) (vars : Vars) (notified : KeySet String)
    {r : TaskResult} {echoed : Task} (changed : r.changed = true) (task : r.task = some echoed)
    (t : Task) :
    d.runStep vars (notified.union r.handlers) (.handler t) =
      if notified.contains t.name = true ∨ r.notify.contains t.name = true ∨
        t.name ∈ echoed.notify then d.run t vars else return .notNotified t := by
  have matches_ : (notified.union r.handlers).contains t.name = true ↔
      notified.contains t.name = true ∨ r.notify.contains t.name = true ∨
        t.name ∈ echoed.notify := by
    rw [Dict.contains_union, TaskResult.contains_handlers, TaskResult.Notifies, changed, task]
    simp
  rw [runStep]
  exact if_congr matches_ rfl rfl

/-- In a document that compiles, every list of names is taken entry by entry, in the order of its
lines: a name that a comma follows keeps the blanks before the comma, and nothing else that stands
around a name is kept. So a list is taken as it is meant exactly if no blank stands before a comma
of it. A handler is notified by its name, which is the text that its mapping tells. -/
theorem names_compiled {runners : List String} {document : Json} {c : Compilation}
    (compiled : compile runners document = .ok c) :
    List.Forall₂ (PlayNames runners) (itemsOf document) c.playbook.plays ∧
    (∀ value lines, Writes value lines →
      (∀ field, readNames field value = .ok (lines.flatMap taken)) ∧
      (lines.flatMap taken = lines.flatMap (·.map Entry.name) ↔
        ∀ l ∈ lines, ∀ e ∈ l.dropLast, e.stray = [])) ∧
    ∀ (d : Dispatcher) (vars : Vars) (notified : KeySet String) (r : TaskResult)
      (echoed handler : Task), r.changed = true → r.task = some echoed →
      d.runStep vars (notified.union r.handlers) (.handler handler) =
        if notified.contains handler.name = true ∨ r.notify.contains handler.name = true ∨
          handler.name ∈ echoed.notify then d.run handler vars
        else return .notNotified handler :=
  ⟨names_of_compile compiled,
    fun _ lines writes =>
      ⟨fun field => readNames_eq_of_writes field writes, Shorthand.flatMap_taken_eq_iff lines⟩,
    fun d vars notified _ _ handler changed task =>
      d.runStep_handler vars notified changed task handler⟩

namespace Compile.Sample

/-- Two names with blanks on either side of the comma between them. -/
def spaced : List Entry :=
  [{ gap := [], name := "a", stray := [' '] }, { gap := [' '], name := "b", stray := [] }]

/-- A task mapping that notifies the two names. -/
def notifying : Json := .obj [("debug", .null), ("notify", .str (lineOf spaced))]

/-- A handler mapping with a name. -/
def named (name : String) : Json := .obj [("debug", .null), ("name", .str name)]

/-- A play whose task is meant to notify both of its handlers. -/
def notified : Json :=
  .arr [.obj [("tasks", .arr [notifying]), ("handlers", .arr [named "a", named "b"])]]

/-- The play as it is compiled. -/
def compiledPlay : Play where
  tasks := [{ runner := "debug", notify := ["a ", "b"] }]
  handlers := [{ runner := "debug", name := "a" }, { runner := "debug", name := "b" }]

theorem compile_notified : compile runners notified = .ok ⟨⟨[compiledPlay]⟩, []⟩ := by
  decide +kernel

end Compile.Sample

theorem names_compiled_notified :
    compile Sample.runners Sample.notified = .ok ⟨⟨[Sample.compiledPlay]⟩, []⟩ ∧
      List.Forall₂ (PlayNames Sample.runners) (itemsOf Sample.notified) [Sample.compiledPlay] ∧
      readNames "task.notify" (.str (lineOf Sample.spaced)) = .ok (taken Sample.spaced) := by
  obtain ⟨names, read, -⟩ := names_compiled Sample.compile_notified
  exact ⟨Sample.compile_notified, names, (read _ _ (.line Sample.spaced)).1 _⟩

/-- A line that writes two names with a blank before its comma compiles without a warning to a list
whose first name ends with the blank. When the task changes something, the handler with that name is
passed over. -/
theorem blank_before_comma :
    compile Sample.runners Sample.notified = .ok ⟨⟨[Sample.compiledPlay]⟩, []⟩ ∧
      Sample.spaced.map Entry.name = ["a", "b"] ∧
      Sample.compiledPlay.tasks.map (·.notify) = [["a ", "b"]] ∧
      ∀ t ∈ Sample.compiledPlay.tasks,
        let r : TaskResult := { TaskResult.success "" with changed := true, task := some t }
        r.handlers.contains "a" = false ∧ r.handlers.contains "b" = true := by
  refine ⟨Sample.compile_notified, rfl, rfl, ?_⟩
  decide +kernel

end Fleet
