/-
# Loops expanded in place

Expansion walks over the tasks of a play from the last position to the first and puts the copies of
a task that loops in its place. Whatever lies before the position is as it was, and whatever lies
from there on is expanded already (`Task.foldr_expandAt`). So the walk leaves what each task stands
for, one after another, whatever the lengths of the loops are (`Task.expandAll_eq`), and finds
nothing to do when it is taken again.

Copies bear the tags of their task, so tags select all of them or none. It does not matter whether
loops are expanded before tags select the tasks of a playbook or behind (`retainTagged_commutes`).
-/

import Fleet.Playbook.Basic
import Mathlib.Data.List.Induction

namespace Fleet

namespace Task

variable {t u : Task} {tasks : List Task}

/-! ## What a task stands for -/

theorem expand_of_loop_eq_nil (none_ : t.loop = []) : t.expand = [t] := by
  rw [expand, none_]
  rfl

theorem expand_of_loop_ne_nil (some_ : t.loop ≠ []) : t.expand = t.loop.map t.forItem := by
  rw [expand, List.isEmpty_eq_false_iff.2 some_]
  rfl

/-- A task that a task stands for is the task itself, which has no loop, or its copy for an
item. -/
theorem eq_or_eq_forItem (member : u ∈ t.expand) :
    (t.loop = [] ∧ u = t) ∨ ∃ item, u = t.forItem item := by
  by_cases loops : t.loop = []
  · rw [expand_of_loop_eq_nil loops] at member
    exact .inl ⟨loops, List.mem_singleton.1 member⟩
  · rw [expand_of_loop_ne_nil loops] at member
    obtain ⟨item, -, same⟩ := List.mem_map.1 member
    exact .inr ⟨item, same.symm⟩

/-- No task that a task stands for loops. -/
theorem loop_of_mem_expand (member : u ∈ t.expand) : u.loop = [] := by
  obtain ⟨loops, rfl⟩ | ⟨item, rfl⟩ := eq_or_eq_forItem member
  · exact loops
  · rfl

/-- Every copy of a task has its runner and its tags. -/
theorem runner_of_mem_expand (member : u ∈ t.expand) : u.runner = t.runner := by
  obtain ⟨-, rfl⟩ | ⟨item, rfl⟩ := eq_or_eq_forItem member <;> rfl

theorem tags_of_mem_expand (member : u ∈ t.expand) : u.tags = t.tags := by
  obtain ⟨-, rfl⟩ | ⟨item, rfl⟩ := eq_or_eq_forItem member <;> rfl

/-- Tasks without loops stand for themselves. -/
theorem flatMap_expand_eq_self (settled : ∀ t ∈ tasks, t.loop = []) :
    tasks.flatMap expand = tasks := by
  induction tasks with
  | nil => rfl
  | cons t tasks ih =>
      obtain ⟨here, later⟩ := List.forall_mem_cons.1 settled
      rw [List.flatMap_cons, expand_of_loop_eq_nil here, ih later]
      rfl

/-! ## The walk -/

/-- A visit changes nothing before its position and nothing behind it. -/
theorem expandAt_append (before after : List Task) (t : Task) :
    expandAt before.length (before ++ t :: after) = before ++ (t.expand ++ after) := by
  have here : (before ++ t :: after)[before.length]? = some t := by
    rw [List.getElem?_append_right (Nat.le_refl _), Nat.sub_self]
    rfl
  have first : (before ++ t :: after).take before.length = before := List.take_left
  have last : (before ++ t :: after).drop (before.length + 1) = after := by
    rw [List.drop_append, List.drop_of_length_le (Nat.le_succ _), Nat.add_sub_cancel_left]
    rfl
  simp only [expandAt, here, first, last]
  by_cases loops : t.loop = []
  · rw [expand_of_loop_eq_nil loops, loops]
    rfl
  · rw [expand_of_loop_ne_nil loops, List.isEmpty_eq_false_iff.2 loops]
    rfl

/-- What is left to visit is as it was at the start, so the visits to come expand it as if nothing
had been done behind it. -/
theorem foldr_expandAt (before after : List Task) :
    (List.range before.length).foldr expandAt (before ++ after) =
      before.flatMap expand ++ after := by
  induction before using List.reverseRecOn generalizing after with
  | nil => rfl
  | append_singleton before t ih =>
      have visit : expandAt before.length (before ++ [t] ++ after) =
          before ++ (t.expand ++ after) := by
        rw [List.append_assoc]
        exact expandAt_append before after t
      rw [List.length_append, List.length_singleton, List.range_succ, List.foldr_append,
        List.foldr_cons, List.foldr_nil, visit, ih, List.flatMap_append, List.flatMap_singleton,
        List.append_assoc]

/-- The walk leaves what each task stands for, in the order of the tasks. -/
theorem expandAll_eq (tasks : List Task) : expandAll tasks = tasks.flatMap expand := by
  have walk := foldr_expandAt tasks []
  rwa [List.append_nil, List.append_nil] at walk

end Task

namespace Playbook

variable (b : Playbook)

theorem expandLoops_eq :
    b.expandLoops = ⟨b.plays.map fun p => { p with tasks := p.tasks.flatMap Task.expand }⟩ := by
  simp only [expandLoops, Task.expandAll_eq]

/-- No task of an expanded playbook loops. -/
theorem loop_of_mem_expandLoops {p : Play} {t : Task} (play : p ∈ b.expandLoops.plays)
    (task : t ∈ p.tasks) : t.loop = [] := by
  rw [expandLoops_eq] at play
  obtain ⟨q, -, rfl⟩ := List.mem_map.1 play
  obtain ⟨origin, -, copy⟩ := List.mem_flatMap.1 task
  exact Task.loop_of_mem_expand copy

/-- In place of each task stand the task itself if it has no loop, and otherwise its copies, one for
each item in the order of the items. A copy has no loop and binds `item`, and that hides the value
that the name had before; all else of it, and of the play, is as it was. A second expansion changes
nothing. -/
theorem expandLoops_unrolls :
    b.expandLoops.plays = (b.plays.map fun p => { p with
      tasks := p.tasks.flatMap fun t =>
        if t.loop = [] then [t]
        else t.loop.map fun item => { t with loop := [], vars := t.vars.insert "item" item } }) ∧
    (∀ (vars : Vars) (item : Json) (name : String), (vars.insert "item" item).get? name =
      if name = "item" then some item else vars.get? name) ∧
    b.expandLoops.expandLoops = b.expandLoops := by
  refine ⟨?_, ?_, ?_⟩
  · have stands : Task.expand = fun t => if t.loop = [] then [t] else t.loop.map t.forItem := by
      funext t
      split
      · next none_ => exact Task.expand_of_loop_eq_nil none_
      · next some_ => exact Task.expand_of_loop_ne_nil some_
    rw [expandLoops_eq, stands]
    rfl
  · intro vars item name
    exact Dict.get?_insert vars "item" name item
  · rw [expandLoops_eq b.expandLoops]
    have same : ∀ p ∈ b.expandLoops.plays,
        { p with tasks := p.tasks.flatMap Task.expand } = p := by
      intro p play
      rw [Task.flatMap_expand_eq_self fun t => loop_of_mem_expandLoops b play]
    rw [List.map_congr_left same, List.map_id']

end Playbook

/-! ## Tags -/

namespace Task

variable {tags : List String} {t : Task} {tasks : List Task}

/-- Whether tags select a task: it bears one of them, or there are none to bear. -/
def IsSelected (tags : List String) (t : Task) : Prop := tags = [] ∨ ∃ tag ∈ t.tags, tag ∈ tags

instance (tags : List String) : DecidablePred (IsSelected tags) := fun t =>
  inferInstanceAs (Decidable (tags = [] ∨ ∃ tag ∈ t.tags, tag ∈ tags))

theorem isSelected_nil (t : Task) : t.IsSelected [] := .inl rfl

theorem isTagged_eq (some_ : tags ≠ []) (t : Task) :
    t.isTagged tags = decide (t.IsSelected tags) := by
  rw [Bool.eq_iff_iff, decide_eq_true_eq, IsSelected, or_iff_right some_, isTagged,
    List.any_eq_true]
  simp only [List.contains_iff_mem]

/-- The tasks that a task stands for are selected with it. -/
theorem isSelected_of_mem_expand {u : Task} (member : u ∈ t.expand) :
    u.IsSelected tags ↔ t.IsSelected tags := by
  rw [IsSelected, IsSelected, tags_of_mem_expand member]

theorem filter_expand (tags : List String) (t : Task) :
    t.expand.filter (IsSelected tags) = if t.IsSelected tags then t.expand else [] := by
  split
  · next selected =>
      apply List.filter_eq_self.2
      intro u member
      exact decide_eq_true ((isSelected_of_mem_expand member).2 selected)
  · next left =>
      apply List.filter_eq_nil_iff.2
      intro u member selected
      exact left ((isSelected_of_mem_expand member).1 (of_decide_eq_true selected))

/-- Of the tasks that some tasks stand for, those are selected that the selected ones stand for. -/
theorem filter_flatMap_expand (tags : List String) (tasks : List Task) :
    (tasks.flatMap expand).filter (IsSelected tags) =
      (tasks.filter (IsSelected tags)).flatMap expand := by
  induction tasks with
  | nil => rfl
  | cons t tasks ih =>
      rw [List.flatMap_cons, List.filter_append, filter_expand, List.filter_cons, ih]
      by_cases selected : t.IsSelected tags
      · rw [if_pos selected, if_pos (decide_eq_true selected), List.flatMap_cons]
      · rw [if_neg selected, if_neg (by simpa using selected), List.nil_append]

end Task

namespace Playbook

variable (b : Playbook) (tags more : List String)

/-- Whether tags are given or not, the tasks of a play are filtered and all else of it is kept. -/
theorem retainTagged_eq : b.retainTagged tags =
    ⟨b.plays.map fun p => { p with tasks := p.tasks.filter (Task.IsSelected tags) }⟩ := by
  unfold retainTagged
  cases tags with
  | nil =>
      have kept (p : Play) : { p with tasks := p.tasks.filter (Task.IsSelected []) } = p := by
        rw [List.filter_eq_self.2 fun t _ => decide_eq_true (Task.isSelected_nil t)]
      simp only [kept, List.map_id']
      rfl
  | cons tag tags =>
      have tagged : Task.isTagged (tag :: tags) = fun t => decide (t.IsSelected (tag :: tags)) :=
        funext (Task.isTagged_eq (List.cons_ne_nil tag tags))
      rw [tagged]
      rfl

theorem retainTagged_retainTagged : (b.retainTagged tags).retainTagged more =
    ⟨b.plays.map fun p => { p with
      tasks := p.tasks.filter fun t => t.IsSelected tags ∧ t.IsSelected more }⟩ := by
  simp only [retainTagged_eq, List.map_map, Function.comp_def, List.filter_filter,
    Bool.decide_and, Bool.and_comm]

/-- Tags select tasks before loops are expanded or behind, with the same outcome. Of each play the
tasks are kept, in their order, that bear one of the tags, or all of them where no tags are given;
handlers and all else stay. Selecting again changes nothing, and selecting by other tags behind
keeps the tasks that both select. -/
theorem retainTagged_commutes :
    b.expandLoops.retainTagged tags = (b.retainTagged tags).expandLoops ∧
    (b.retainTagged tags).plays = (b.plays.map fun p => { p with
      tasks := p.tasks.filter fun t => tags = [] ∨ ∃ tag ∈ t.tags, tag ∈ tags }) ∧
    (b.retainTagged tags).retainTagged tags = b.retainTagged tags ∧
    ((b.retainTagged tags).retainTagged more).plays = b.plays.map fun p => { p with
      tasks := p.tasks.filter fun t =>
        (tags = [] ∨ ∃ tag ∈ t.tags, tag ∈ tags) ∧ (more = [] ∨ ∃ tag ∈ t.tags, tag ∈ more) } := by
  refine ⟨?_, ?_, ?_, ?_⟩
  · simp only [retainTagged_eq, expandLoops_eq, List.map_map, Function.comp_def,
      Task.filter_flatMap_expand]
  · rw [retainTagged_eq]
    rfl
  · rw [retainTagged_retainTagged, retainTagged_eq]
    simp only [and_self]
  · rw [retainTagged_retainTagged]
    rfl

end Playbook

end Fleet
