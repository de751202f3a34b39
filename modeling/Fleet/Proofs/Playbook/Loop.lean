/-
# Loops of a document

A task mapping tells a loop by its key `loop`, under the tasks of a play and under its handlers
alike. What becomes of it differs: a task has become one task for each item by the time the document
is compiled, while a handler keeps its loop. So no loop is left in a compiled playbook exactly if no
handler mapping of its document tells one (`loops_left_iff`).
-/

import Fleet.Proofs.Playbook.Fields

namespace Fleet.Compile

variable {runners : List String} {members : List (String × Json)} {raw : Json}

/-! ## Loops as they are written -/

/-- The loop that members of a task mapping tell, if they tell one: that of the last member `loop`.
The key means something else where it is the name of a runner. -/
def toldLoop? (runners : List String) (members : List (String × Json)) : Option (List Json) :=
  if runners.contains "loop" then none
  else (Dict.lookupEntry "loop" members.reverse).map itemsOf

/-- The loop that a task mapping tells; none is the empty one. -/
def writtenLoop (runners : List String) : Json → List Json
  | .obj members => (toldLoop? runners members).getD []
  | _ => []

variable (runners members) in
theorem toldLoop?_eq : toldLoop? runners members = (told? runners "loop" members).map itemsOf := by
  unfold toldLoop? told?
  split <;> rfl

theorem ReadFrom.writtenLoop_eq {t : Task} (read : ReadFrom runners raw t) :
    t.loop = writtenLoop runners raw := by
  rw [read.loop]
  cases raw with
  | obj members =>
      rw [writtenLoop, toldLoop?_eq]
      rfl
  | _ => rfl

/-- Compiled tasks have the loops that their mappings tell, one by one. -/
theorem loops_of_readFrom {items : List Json} {tasks : List Task}
    (each : List.Forall₂ (ReadFrom runners) items tasks) :
    tasks.map (·.loop) = items.map (writtenLoop runners) := by
  induction each with
  | nil => rfl
  | cons first _ ih => rw [List.map_cons, List.map_cons, first.writtenLoop_eq, ih]

/-! ## Loops of plays -/

/-- The loops of a play, as they are told under its tasks and under its handlers. -/
structure HasLoops (runners : List String) (raw : Json) (p : Play) : Prop where
  tasks : p.tasks.map (·.loop) = (under "tasks" raw).map (writtenLoop runners)
  handlers : p.handlers.map (·.loop) = (under "handlers" raw).map (writtenLoop runners)

theorem PlayReadFrom.hasLoops {p : Play} (read : PlayReadFrom runners raw p) :
    HasLoops runners raw p :=
  ⟨loops_of_readFrom read.tasks, loops_of_readFrom read.handlers⟩

/-! ## The whole document -/

/-- A play as it is compiled: in place of each task mapping stands what its task stands for, and
each handler has the loop that its mapping tells. -/
structure Unrolls (runners : List String) (raw : Json) (p : Play) : Prop where
  tasks : ∃ written : List Task,
    written.map (·.loop) = (under "tasks" raw).map (writtenLoop runners) ∧
      p.tasks = written.flatMap Task.expand
  handlers : p.handlers.map (·.loop) = (under "handlers" raw).map (writtenLoop runners)

/-- The handlers of a play are without loops where its handler mappings tell none. -/
theorem Unrolls.handlers_iff {p : Play} (unrolls : Unrolls runners raw p) :
    (∀ t ∈ p.handlers, t.loop = []) ↔
      ∀ handler ∈ under "handlers" raw, writtenLoop runners handler = [] := by
  have loops : (∀ loop ∈ p.handlers.map (·.loop), loop = []) ↔
      ∀ loop ∈ (under "handlers" raw).map (writtenLoop runners), loop = [] := by
    rw [unrolls.handlers]
  rwa [List.forall_mem_map, List.forall_mem_map] at loops

theorem handlers_iff_of_unrolls {items : List Json} {plays : List Play}
    (each : List.Forall₂ (Unrolls runners) items plays) :
    (∀ p ∈ plays, ∀ t ∈ p.handlers, t.loop = []) ↔
      ∀ raw ∈ items, ∀ handler ∈ under "handlers" raw, writtenLoop runners handler = [] := by
  induction each with
  | nil => simp
  | cons first _ ih => rw [List.forall_mem_cons, List.forall_mem_cons, first.handlers_iff, ih]

theorem unrolls_of_hasLoops {items : List Json} {plays : List Play}
    (each : List.Forall₂ (HasLoops runners) items plays) :
    List.Forall₂ (Unrolls runners) items (Playbook.expandLoops ⟨plays⟩).plays := by
  rw [Playbook.expandLoops_eq]
  induction each with
  | nil => exact .nil
  | cons first _ ih => exact .cons ⟨⟨_, first.tasks, rfl⟩, first.handlers⟩ ih

/-- Compiled plays are the play mappings of the document, unrolled. -/
theorem unrolls_of_compile {document : Json} {c : Compilation}
    (compiled : compile runners document = .ok c) :
    List.Forall₂ (Unrolls runners) (itemsOf document) c.playbook.plays ∧
      ∃ b : Playbook, c.playbook = b.expandLoops := by
  obtain ⟨plays, each, expanded⟩ := readFrom_of_compile compiled
  rw [expanded]
  exact ⟨unrolls_of_hasLoops (each.imp fun _ _ => PlayReadFrom.hasLoops), ⟨plays⟩, rfl⟩

end Fleet.Compile

namespace Fleet

open Compile

/-- Every loop under the tasks of a document that compiles has become one task for each item, and
every loop under its handlers is kept as it is written. So no task and no handler loops exactly if
no handler mapping of the document tells a loop. -/
theorem loops_left_iff {runners : List String} {document : Json} {c : Compilation}
    (compiled : compile runners document = .ok c) :
    (∀ p ∈ c.playbook.plays, ∀ t ∈ p.tasks, t.loop = []) ∧
    List.Forall₂ (Unrolls runners) (itemsOf document) c.playbook.plays ∧
    ((∀ p ∈ c.playbook.plays, ∀ t ∈ p.tasks ++ p.handlers, t.loop = []) ↔
      ∀ play ∈ itemsOf document, ∀ handler ∈ under "handlers" play,
        writtenLoop runners handler = []) := by
  obtain ⟨unrolls, b, expanded⟩ := unrolls_of_compile compiled
  have settled : ∀ p ∈ c.playbook.plays, ∀ t ∈ p.tasks, t.loop = [] := by
    rw [expanded]
    intro p play t task
    exact Playbook.loop_of_mem_expandLoops b play task
  apply And.intro settled
  apply And.intro unrolls
  rw [← handlers_iff_of_unrolls unrolls]
  apply forall₂_congr
  intro p play
  rw [List.forall_mem_append]
  exact and_iff_right (settled p play)

namespace Compile.Sample

/-- A task mapping with a loop over two items. -/
def looping : Json :=
  .obj [("debug", .null), ("loop", .arr [.str "a", .str "b"]), ("name", .str "say")]

/-- The task that the mapping tells. -/
def looped : Task := { runner := "debug", name := "say", loop := [.str "a", .str "b"] }

/-- A play with the mapping under its tasks. -/
def taskLoop : Json := .arr [.obj [("tasks", .arr [looping])]]

/-- A play with the mapping under its handlers. -/
def handlerLoop : Json := .arr [.obj [("handlers", .arr [looping])]]

end Compile.Sample

theorem loops_left_iff_sample :
    ∃ c, compile Sample.runners Sample.taskLoop = .ok c ∧
      c.playbook.plays.map (·.tasks) =
        [[Sample.looped.forItem (.str "a"), Sample.looped.forItem (.str "b")]] ∧
      List.Forall₂ (Unrolls Sample.runners) (itemsOf Sample.taskLoop) c.playbook.plays ∧
      ∀ p ∈ c.playbook.plays, ∀ t ∈ p.tasks ++ p.handlers, t.loop = [] := by
  have compiled : compile Sample.runners Sample.taskLoop =
      .ok ⟨⟨[{ tasks := Sample.looped.expand }]⟩, []⟩ := by decide +kernel
  obtain ⟨-, unrolls, settled⟩ := loops_left_iff compiled
  exact ⟨_, compiled, by decide, unrolls, settled.2 (by decide)⟩

/-- A document that compiles without a warning and keeps the loop of a handler. -/
theorem handler_keeps_loop :
    compile Sample.runners Sample.handlerLoop = .ok ⟨⟨[{ handlers := [Sample.looped] }]⟩, []⟩ ∧
      Sample.looped.loop ≠ [] := by
  constructor
  · decide +kernel
  · decide

end Fleet
