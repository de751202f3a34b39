/-
# Documents that compile

`IsDocument` says which documents are playbooks, value by value; the compiler accepts these and no
others (`compile_iff`). A task mapping is read member by member: a member adds to the draft the
runner that it tells and the warning that it causes, and is refused if its value has the wrong kind
or tells a second runner. What it gives is known of every compiled playbook: its tasks name
runners of the compiler, and its warnings are the keys without a meaning.
-/

import Fleet.Playbook.Compile
import Fleet.Proofs.Dict
import Fleet.Proofs.Except
import Fleet.Proofs.Playbook.Expansion

namespace Fleet.Compile

/-! ## Documents -/

/-- The text of a scalar. -/
def scalarText? : Json → Option String
  | .str s => some s
  | .int n => some (Json.int n).print
  | .float bits => some (Json.float bits).print
  | .bool b => some (Json.bool b).print
  | .null | .arr _ | .obj _ => none

/-- A string, a number or a boolean. -/
def IsScalar : Json → Prop
  | .str _ | .int _ | .float _ | .bool _ => True
  | .null | .arr _ | .obj _ => False

/-- Variables, or none. -/
def IsVars : Json → Prop
  | .null | .obj _ => True
  | .bool _ | .int _ | .float _ | .str _ | .arr _ => False

/-- Names, or none. -/
def IsNames : Json → Prop
  | .null | .str _ => True
  | .arr items => ∀ item ∈ items, IsScalar item
  | .bool _ | .int _ | .float _ | .obj _ => False

/-- Items of a loop, or none. -/
def IsItems : Json → Prop
  | .null | .arr _ => True
  | .bool _ | .int _ | .float _ | .str _ | .obj _ => False

/-- Arguments under the key of a runner, or none. -/
def IsArgs : Json → Prop
  | .str _ | .obj _ | .null => True
  | .bool _ | .int _ | .float _ | .arr _ => False

/-- The keys of a task mapping that have a meaning of their own. -/
def taskKeys : List String :=
  ["runner", "name", "args", "unless", "notify", "tags", "vars", "loop"]

variable (runners : List String)

/-- Whether a key of a task mapping tells the runner. -/
def tellsRunner (key : String) : Bool := key = "runner" || runners.contains key

/-- A member that tells a runner there is. -/
def TellsKnown : String × Json → Prop
  | (key, value) =>
    if key = "runner" then ∃ r ∈ runners, scalarText? value = some r else IsArgs value

/-- The members of a task. -/
structure IsTask (members : List (String × Json)) : Prop where
  /-- One key tells the runner. -/
  runner : ∃ m, members.filter (fun m => tellsRunner runners m.1) = [m] ∧ TellsKnown runners m
  scalars : ∀ m ∈ members, m.1 = "name" ∨ m.1 = "unless" → IsScalar m.2
  vars : ∀ m ∈ members, m.1 = "args" ∨ m.1 = "vars" → IsVars m.2
  names : ∀ m ∈ members, m.1 = "notify" ∨ m.1 = "tags" → IsNames m.2
  items : ∀ m ∈ members, m.1 = "loop" → IsItems m.2

/-- A sequence of tasks, or none. -/
def AreTasks : Json → Prop
  | .null => True
  | .arr items => ∀ item ∈ items, ∃ members, item = .obj members ∧ IsTask runners members
  | .bool _ | .int _ | .float _ | .str _ | .obj _ => False

/-- The members of a play. Each of them may be missing, and there may be others. -/
structure IsPlay (members : List (String × Json)) : Prop where
  name : ∀ v, Dict.lookupEntry "name" members = some v → IsScalar v
  hosts : ∀ v, Dict.lookupEntry "hosts" members = some v → IsNames v
  vars : ∀ v, Dict.lookupEntry "vars" members = some v → IsVars v
  preRun : ∀ v, Dict.lookupEntry "pre_run" members = some v → IsNames v
  tasks : ∀ v, Dict.lookupEntry "tasks" members = some v → AreTasks runners v
  handlers : ∀ v, Dict.lookupEntry "handlers" members = some v → AreTasks runners v

/-- A sequence of plays, or nothing. -/
def IsDocument : Json → Prop
  | .null => True
  | .arr items => ∀ item ∈ items, ∃ members, item = .obj members ∧ IsPlay runners members
  | .bool _ | .int _ | .float _ | .str _ | .obj _ => False

/-! ## Keys without a meaning -/

/-- The warnings for a member of a task mapping. -/
def memberWarnings (label : String) (m : String × Json) : List String :=
  if tellsRunner runners m.1 || taskKeys.contains m.1 then []
  else [s!"{label}: task key {m.1}"]

/-- The warnings for a task mapping. -/
def taskWarnings (label : String) : Json → List String
  | .obj members => members.flatMap (memberWarnings runners label)
  | _ => []

/-- The warnings for a sequence of task mappings. -/
def tasksWarnings (label : String) : Option Json → List String
  | some (.arr items) => items.flatMap (taskWarnings runners label)
  | _ => []

/-- What a play is called in warnings: its name, or its place in the document. -/
def playLabel (index : Nat) (members : List (String × Json)) : String :=
  match (Dict.lookupEntry "name" members).bind scalarText? with
  | some name => if name.isEmpty then s!"play[{index}]" else name
  | none => s!"play[{index}]"

/-- The warnings for a play mapping: its own keys, those of its tasks and those of its handlers. -/
def playWarnings (index : Nat) : Json → List String
  | .obj members =>
    let label := playLabel index members
    (((members.map (·.1)).filter fun key => !playKeys.contains key).map fun key =>
      s!"{label}: {key}") ++
      tasksWarnings runners label (Dict.lookupEntry "tasks" members) ++
      tasksWarnings runners label (Dict.lookupEntry "handlers" members)
  | _ => []

/-- The warnings for a document, play by play. -/
def documentWarnings : Json → List String
  | .arr items => (items.mapIdx (playWarnings runners)).flatten
  | _ => []

/-! ## Values -/

section Values

variable {field : String} {v : Json} {text : String}

theorem readString_eq_ok_iff : readString field v = .ok text ↔ scalarText? v = some text := by
  cases v <;> simp [readString, scalarText?]

theorem exists_readString_iff : (∃ s, readString field v = .ok s) ↔ IsScalar v := by
  cases v <;> simp [readString, IsScalar]

theorem exists_readVars_iff : (∃ vars, readVars field v = .ok vars) ↔ IsVars v := by
  cases v <;> simp [readVars, IsVars]

theorem exists_readItems_iff : (∃ items, readItems field v = .ok items) ↔ IsItems v := by
  cases v <;> simp [readItems, IsItems]

theorem exists_readArgs_iff {runner : String} :
    (∃ args, readArgs runner v = .ok args) ↔ IsArgs v := by
  cases v <;> simp [readArgs, IsArgs]

theorem exists_readStrings_iff (field : String) {items : List Json} :
    (∃ lines, items.mapM (readString field) = .ok lines) ↔ ∀ item ∈ items, IsScalar item := by
  simp only [exists_mapM_iff, exists_readString_iff]

theorem exists_readNames_iff : (∃ names, readNames field v = .ok names) ↔ IsNames v := by
  cases v with
  | arr items =>
      show (∃ names, (items.mapM (readString field) >>= fun lines =>
        pure (lines.flatMap Shorthand.names)) = .ok names) ↔ ∀ item ∈ items, IsScalar item
      refine Iff.trans ⟨?_, ?_⟩ (exists_readStrings_iff field)
      · rintro ⟨names, read⟩
        obtain ⟨lines, read, -⟩ := bind_eq_ok_iff.1 read
        exact ⟨lines, read⟩
      · rintro ⟨lines, read⟩
        exact ⟨_, bind_eq_ok_iff.2 ⟨lines, read, rfl⟩⟩
  | _ => simp [readNames, IsNames]

theorem exists_readCommands_iff :
    (∃ commands, readCommands field v = .ok commands) ↔ IsNames v := by
  cases v with
  | arr items => exact exists_readStrings_iff field
  | _ => simp [readCommands, IsNames]

end Values

/-! ## Tasks -/

/-- The value of a member has the kind that its key asks for. -/
def Fits (m : String × Json) : Prop :=
  (m.1 = "runner" → IsScalar m.2) ∧ (m.1 ≠ "runner" → m.1 ∈ runners → IsArgs m.2) ∧
    (m.1 = "name" ∨ m.1 = "unless" → IsScalar m.2) ∧ (m.1 = "args" ∨ m.1 = "vars" → IsVars m.2) ∧
    (m.1 = "notify" ∨ m.1 = "tags" → IsNames m.2) ∧ (m.1 = "loop" → IsItems m.2)

/-- The runner that a member tells, if it tells one. -/
def told (m : String × Json) : List String :=
  if m.1 = "runner" then (scalarText? m.2).toList
  else if runners.contains m.1 then [m.1]
  else []

variable (label : String)

/-- What becomes of a draft when members are read into it: it has their runner and their warnings,
and it fails where a value does not fit or the runners are too many. -/
def Adds (draft : Draft) (members : List (String × Json)) : Except CompileError Draft → Prop
  | .ok next => (∀ m ∈ members, Fits runners m) ∧
      next.runner.toList = draft.runner.toList ++ members.flatMap (told runners) ∧
      next.warnings = draft.warnings ++ members.flatMap (memberWarnings runners label)
  | .error _ => ¬ ((∀ m ∈ members, Fits runners m) ∧
      (draft.runner.toList ++ members.flatMap (told runners)).length ≤ 1)

variable {runners label} {draft : Draft} {members more : List (String × Json)} {m : String × Json}

theorem Adds.append {x : Except CompileError Draft} {f : Draft → Except CompileError Draft}
    (first : Adds runners label draft members x)
    (second : ∀ next, x = .ok next → Adds runners label next more (f next)) :
    Adds runners label draft (members ++ more) (x >>= f) := by
  cases x with
  | error e =>
      rintro ⟨fits, few⟩
      refine first ⟨fun m member => fits m (List.mem_append_left _ member), ?_⟩
      simp only [List.flatMap_append, List.length_append] at few ⊢
      omega
  | ok next =>
      obtain ⟨fits, runner, warnings⟩ := first
      have later := second next rfl
      show Adds runners label draft (members ++ more) (f next)
      cases result : f next with
      | error e =>
          rw [result] at later
          rintro ⟨all, few⟩
          refine later ⟨fun m member => all m (List.mem_append_right _ member), ?_⟩
          rwa [runner, List.append_assoc, ← List.flatMap_append]
      | ok last =>
          rw [result] at later
          obtain ⟨fits', runner', warnings'⟩ := later
          refine ⟨List.forall_mem_append.2 ⟨fits, fits'⟩, ?_, ?_⟩
          · rw [runner', runner, List.flatMap_append, List.append_assoc]
          · rw [warnings', warnings, List.flatMap_append, List.append_assoc]

/-- A member that sets a field of the task. -/
theorem Adds.field {α : Type} {read : Except CompileError α} {set : α → Draft}
    (fits : (∃ a, read = .ok a) ↔ Fits runners m)
    (keeps : ∀ a, (set a).runner = draft.runner ∧ (set a).warnings = draft.warnings)
    (silent : told runners m = []) (known : memberWarnings runners label m = []) :
    Adds runners label draft [m] (read >>= fun a => pure (set a)) := by
  cases read with
  | error e =>
      rintro ⟨fit, -⟩
      obtain ⟨a, read⟩ := fits.2 (fit m List.mem_cons_self)
      cases read
  | ok a =>
      refine ⟨List.forall_mem_singleton.2 (fits.1 ⟨a, rfl⟩), ?_, ?_⟩
      · rw [List.flatMap_singleton, silent, List.append_nil, (keeps a).1]
      · rw [List.flatMap_singleton, known, List.append_nil, (keeps a).2]

/-- A second runner is one too many. -/
theorem adds_of_runner {first : String} {e : CompileError} (taken : draft.runner = some first)
    (tells : Fits runners m → told runners m ≠ []) : Adds runners label draft [m] (.error e) := by
  rintro ⟨fits, few⟩
  have more := List.length_pos_iff.2 (tells (fits m List.mem_cons_self))
  rw [taken, List.flatMap_singleton, List.length_append, Option.toList_some,
    List.length_singleton] at few
  omega

/-- The member `runner` tells the runner that its text names. -/
theorem adds_withRunner_named {value : Json} :
    Adds runners label draft [("runner", value)] (draft.withRunner "runner" value) := by
  have fits : IsScalar value ↔ Fits runners ("runner", value) := by simp [Fits]
  unfold Draft.withRunner
  simp only [if_true]
  cases read : readString "task.runner" value with
  | error e =>
      rintro ⟨fit, -⟩
      obtain ⟨s, text⟩ := exists_readString_iff.2 (fits.2 (fit _ List.mem_cons_self))
      rw [read] at text
      cases text
  | ok name =>
      have tells : told runners ("runner", value) = [name] := by
        simp [told, readString_eq_ok_iff.1 read]
      show Adds runners label draft _ (match draft.runner with | some first => _ | none => _)
      cases taken : draft.runner with
      | some first => exact adds_of_runner taken fun _ => by simp [tells]
      | none =>
          refine ⟨List.forall_mem_singleton.2 (fits.1 (exists_readString_iff.1 ⟨name, read⟩)),
            ?_, ?_⟩
          · rw [List.flatMap_singleton, tells, taken]
            rfl
          · simp [memberWarnings, tellsRunner]

/-- A member with the name of a runner tells that runner, and its value is the arguments. -/
theorem adds_withRunner_registered (apart : ∀ r ∈ runners, r ∉ taskKeys) {key : String}
    {value : Json} (member : key ∈ runners) :
    Adds runners label draft [(key, value)] (draft.withRunner key value) := by
  have outside := apart key member
  simp only [taskKeys, List.mem_cons, List.not_mem_nil, or_false, not_or] at outside
  have fits : IsArgs value ↔ Fits runners (key, value) := by simp [Fits, member, outside]
  have tells : told runners (key, value) = [key] := by simp [told, outside, member]
  unfold Draft.withRunner
  simp only [if_neg outside.1]
  show Adds runners label draft _ (match draft.runner with | some first => _ | none => _)
  cases taken : draft.runner with
  | some first => exact adds_of_runner taken fun _ => by simp [tells]
  | none =>
      cases read : readArgs key value with
      | error e =>
          rintro ⟨fit, -⟩
          obtain ⟨args, given⟩ := exists_readArgs_iff.2 (fits.2 (fit _ List.mem_cons_self))
          rw [read] at given
          cases given
      | ok args =>
          refine ⟨List.forall_mem_singleton.2 (fits.1 (exists_readArgs_iff.1 ⟨args, read⟩)),
            ?_, ?_⟩
          · rw [List.flatMap_singleton, tells, taken]
            rfl
          · simp [memberWarnings, tellsRunner, member]

/-- What a member adds to the draft of its task. -/
theorem adds_withMember (apart : ∀ r ∈ runners, r ∉ taskKeys) (m : String × Json) :
    Adds runners label draft [m] (draft.withMember runners label m) := by
  obtain ⟨key, value⟩ := m
  unfold Draft.withMember
  simp only [Bool.or_eq_true, List.contains_iff_mem, decide_eq_true_eq]
  split
  · next tells =>
      rcases tells with member | rfl
      · exact adds_withRunner_registered apart member
      · exact adds_withRunner_named
  next other =>
  obtain ⟨outside, other⟩ := not_or.1 other
  have silent : told runners (key, value) = [] := by simp [told, outside, other]
  split
  · next same =>
      subst same
      exact Adds.field (exists_readString_iff.trans (by simp [Fits, outside]))
        (fun _ => ⟨rfl, rfl⟩) silent (by simp [memberWarnings, taskKeys])
  split
  · next same =>
      subst same
      exact Adds.field (exists_readVars_iff.trans (by simp [Fits, outside]))
        (fun _ => ⟨rfl, rfl⟩) silent (by simp [memberWarnings, taskKeys])
  split
  · next same =>
      subst same
      exact Adds.field (exists_readString_iff.trans (by simp [Fits, outside]))
        (fun _ => ⟨rfl, rfl⟩) silent (by simp [memberWarnings, taskKeys])
  split
  · next same =>
      subst same
      exact Adds.field (exists_readNames_iff.trans (by simp [Fits, outside]))
        (fun _ => ⟨rfl, rfl⟩) silent (by simp [memberWarnings, taskKeys])
  split
  · next same =>
      subst same
      exact Adds.field (exists_readNames_iff.trans (by simp [Fits, outside]))
        (fun _ => ⟨rfl, rfl⟩) silent (by simp [memberWarnings, taskKeys])
  split
  · next same =>
      subst same
      exact Adds.field (exists_readVars_iff.trans (by simp [Fits, outside]))
        (fun _ => ⟨rfl, rfl⟩) silent (by simp [memberWarnings, taskKeys])
  split
  · next same =>
      subst same
      exact Adds.field (exists_readItems_iff.trans (by simp [Fits, outside]))
        (fun _ => ⟨rfl, rfl⟩) silent (by simp [memberWarnings, taskKeys])
  next name args guard notify tags vars loop =>
  refine ⟨List.forall_mem_singleton.2 ?_, ?_, ?_⟩
  · simp [Fits, other, outside, name, args, guard, notify, tags, vars, loop]
  · rw [List.flatMap_singleton, silent, List.append_nil]
  · simp [memberWarnings, tellsRunner, taskKeys, other, outside, name, args, guard, notify, tags,
      vars, loop]

/-- What the members of a task mapping add to its draft. -/
theorem adds_foldlM (apart : ∀ r ∈ runners, r ∉ taskKeys) (label : String) (draft : Draft)
    (members : List (String × Json)) :
    Adds runners label draft members (members.foldlM (Draft.withMember runners label) draft) := by
  induction members generalizing draft with
  | nil => exact ⟨nofun, (List.append_nil _).symm, (List.append_nil _).symm⟩
  | cons m members ih =>
      rw [List.foldlM_cons]
      exact (adds_withMember apart m).append fun next _ => ih next

theorem isScalar_iff {v : Json} : IsScalar v ↔ ∃ s, scalarText? v = some s := by
  cases v <;> simp [IsScalar, scalarText?]

theorem tellsRunner_iff {key : String} :
    tellsRunner runners key = true ↔ key = "runner" ∨ key ∈ runners := by
  simp [tellsRunner]

/-- The members that tell no runner do not count. -/
theorem flatMap_told (members : List (String × Json)) : members.flatMap (told runners) =
    (members.filter fun m => tellsRunner runners m.1).flatMap (told runners) := by
  induction members with
  | nil => rfl
  | cons m members ih =>
      rw [List.flatMap_cons, List.filter_cons, ih]
      split
      · rw [List.flatMap_cons]
      · next silent =>
          have none_ : told runners m = [] := by
            rw [tellsRunner_iff, not_or] at silent
            simp [told, silent]
          rw [none_, List.nil_append]

/-- A member that tells a runner and fits tells one. -/
theorem exists_told_eq (fits : Fits runners m) (tells : tellsRunner runners m.1 = true) :
    ∃ s, told runners m = [s] := by
  unfold told
  split
  · next named =>
      obtain ⟨s, text⟩ := isScalar_iff.1 (fits.1 named)
      exact ⟨s, by rw [text]; rfl⟩
  · next other =>
      have member : m.1 ∈ runners := (tellsRunner_iff.1 tells).resolve_left other
      exact ⟨m.1, if_pos (List.contains_iff_mem.2 member)⟩

/-- A member that tells a runner there is. -/
theorem tellsKnown_iff (tells : tellsRunner runners m.1 = true) : TellsKnown runners m ↔
    (m.1 = "runner" → IsScalar m.2) ∧ (m.1 ≠ "runner" → m.1 ∈ runners → IsArgs m.2) ∧
      ∃ r ∈ runners, told runners m = [r] := by
  obtain ⟨key, value⟩ := m
  by_cases named : key = "runner"
  · have text (r : String) : told runners (key, value) = [r] ↔ scalarText? value = some r := by
      rw [told, if_pos named]
      cases scalarText? value <;> simp
    have known : TellsKnown runners (key, value) = ∃ r ∈ runners, scalarText? value = some r :=
      if_pos named
    simp only [known, text]
    constructor
    · rintro ⟨r, member, told⟩
      exact ⟨fun _ => isScalar_iff.2 ⟨r, told⟩, fun other => absurd named other, r, member, told⟩
    · rintro ⟨-, -, known⟩
      exact known
  · have member : key ∈ runners := (tellsRunner_iff.1 tells).resolve_left named
    simp [TellsKnown, told, named, member]

/-- Members that tell one runner together are one member. -/
theorem exists_single_of_told {telling : List (String × Json)} {r : String}
    (each : ∀ m ∈ telling, Fits runners m ∧ tellsRunner runners m.1 = true) (known : r ∈ runners)
    (name : telling.flatMap (told runners) = [r]) :
    ∃ m, telling = [m] ∧ TellsKnown runners m := by
  cases telling with
  | nil => cases name
  | cons m rest =>
      obtain ⟨⟨fit, tells⟩, later⟩ := List.forall_mem_cons.1 each
      obtain ⟨s, one⟩ := exists_told_eq fit tells
      rw [List.flatMap_cons, one, List.singleton_append] at name
      obtain ⟨rfl, none_⟩ := List.cons.inj name
      cases rest with
      | nil => exact ⟨m, rfl, (tellsKnown_iff tells).2 ⟨fit.1, fit.2.1, s, known, one⟩⟩
      | cons next rest =>
          -- A second member would tell a second runner.
          obtain ⟨fit, tells⟩ := later next List.mem_cons_self
          obtain ⟨t, other⟩ := exists_told_eq fit tells
          rw [List.flatMap_cons, other] at none_
          cases none_

/-- The members of a task say which runner it has. -/
theorem isTask_iff : IsTask runners members ↔
    (∀ m ∈ members, Fits runners m) ∧ ∃ r ∈ runners, members.flatMap (told runners) = [r] := by
  constructor
  · intro task
    obtain ⟨m₀, single, known⟩ := task.runner
    have inside : m₀ ∈ members.filter fun m => tellsRunner runners m.1 :=
      single.symm ▸ List.mem_singleton_self m₀
    have tells : tellsRunner runners m₀.1 = true := (List.mem_filter.1 inside).2
    obtain ⟨scalar, args, r, member, name⟩ := (tellsKnown_iff tells).1 known
    have only (m : String × Json) (inside : m ∈ members) (tells : m.1 = "runner" ∨ m.1 ∈ runners) :
        m = m₀ :=
      List.mem_singleton.1 (single ▸ List.mem_filter.2 ⟨inside, tellsRunner_iff.2 tells⟩)
    refine ⟨fun m inside => ⟨fun named => ?_, fun other listed => ?_, task.scalars m inside,
      task.vars m inside, task.names m inside, task.items m inside⟩, r, member, ?_⟩
    · obtain rfl := only m inside (.inl named)
      exact scalar named
    · obtain rfl := only m inside (.inr listed)
      exact args other listed
    · rw [flatMap_told, single, List.flatMap_singleton, name]
  · rintro ⟨fits, r, member, name⟩
    rw [flatMap_told] at name
    have each : ∀ m ∈ members.filter (fun m => tellsRunner runners m.1),
        Fits runners m ∧ tellsRunner runners m.1 = true := fun m inside =>
      ⟨fits m (List.mem_filter.1 inside).1, (List.mem_filter.1 inside).2⟩
    exact ⟨exists_single_of_told each member name, fun m inside => (fits m inside).2.2.1,
      fun m inside => (fits m inside).2.2.2.1, fun m inside => (fits m inside).2.2.2.2.1,
      fun m inside => (fits m inside).2.2.2.2.2⟩

theorem finish_eq_ok_iff {t : Task} {warnings : List String} :
    draft.finish runners label = .ok (t, warnings) ↔
      ∃ r ∈ runners, draft.runner.toList = [r] ∧ draft.warnings = warnings ∧
        t = { draft.task with
          runner := r
          args := draft.task.args.union (draft.given.getD ∅) } := by
  unfold Draft.finish
  cases taken : draft.runner with
  | none => simp
  | some r =>
      by_cases known : r ∈ runners
      · simp [known, and_comm, eq_comm]
      · simp [known]

/-- The members of a task compile, to a task with a known runner. -/
theorem readTask_obj (apart : ∀ r ∈ runners, r ∉ taskKeys) :
    ((∃ t, readTask runners label (.obj members) = .ok t) ↔ IsTask runners members) ∧
      ∀ t, readTask runners label (.obj members) = .ok t →
        t.1.runner ∈ runners ∧ t.2 = taskWarnings runners label (.obj members) := by
  have reads : readTask runners label (.obj members) =
      members.foldlM (Draft.withMember runners label) {} >>= Draft.finish runners label := rfl
  have adds := adds_foldlM apart label {} members
  rw [reads, isTask_iff]
  cases result : members.foldlM (Draft.withMember runners label) {} with
  | error e =>
      rw [result] at adds
      refine ⟨⟨nofun, ?_⟩, nofun⟩
      rintro ⟨fits, r, -, name⟩
      refine absurd ⟨fits, ?_⟩ adds
      rw [name]
      exact Nat.le_refl 1
  | ok draft =>
      rw [result] at adds
      obtain ⟨fits, runner, warnings⟩ := adds
      rw [Option.toList_none, List.nil_append] at runner
      have finished (t : Task × List String) :
          (Except.ok draft >>= Draft.finish runners label) = .ok t ↔ _ := finish_eq_ok_iff
      constructor
      · constructor
        · rintro ⟨t, read⟩
          obtain ⟨r, member, name, -⟩ := (finished t).1 read
          exact ⟨fits, r, member, runner ▸ name⟩
        · rintro ⟨-, r, member, name⟩
          exact ⟨_, (finished (_, _)).2 ⟨r, member, runner.trans name, rfl, rfl⟩⟩
      · intro t read
        obtain ⟨r, member, -, written, task⟩ := (finished t).1 read
        exact ⟨task ▸ member, written.symm.trans warnings⟩

/-- A task mapping compiles if its members are those of a task, to a task with a known runner. -/
theorem readTask_iff (apart : ∀ r ∈ runners, r ∉ taskKeys) (raw : Json) :
    ((∃ t, readTask runners label raw = .ok t) ↔
      ∃ members, raw = .obj members ∧ IsTask runners members) ∧
    ∀ t, readTask runners label raw = .ok t →
      t.1.runner ∈ runners ∧ t.2 = taskWarnings runners label raw := by
  cases raw with
  | obj members => simpa using readTask_obj apart
  | _ =>
      refine ⟨⟨?_, ?_⟩, ?_⟩
      · rintro ⟨t, read⟩
        cases read
      · rintro ⟨members, same, -⟩
        cases same
      · intro t read
        cases read

/-- What the tasks of a sequence give together. -/
theorem tasks_of_forall₂ (apart : ∀ r ∈ runners, r ∉ taskKeys) {items : List Json}
    {results : List (Task × List String)}
    (read : List.Forall₂ (fun raw t => readTask runners label raw = .ok t) items results) :
    (∀ t ∈ results.map (·.1), t.runner ∈ runners) ∧
      results.flatMap (·.2) = items.flatMap (taskWarnings runners label) := by
  induction read with
  | nil => exact ⟨nofun, rfl⟩
  | cons first _ ih =>
      obtain ⟨known, warnings⟩ := (readTask_iff apart _).2 _ first
      obtain ⟨laterKnown, laterWarnings⟩ := ih
      refine ⟨List.forall_mem_cons.2 ⟨known, laterKnown⟩, ?_⟩
      rw [List.flatMap_cons, List.flatMap_cons, warnings, laterWarnings]

/-- A sequence of task mappings compiles if each of them is one. -/
theorem readTasks_iff (apart : ∀ r ∈ runners, r ∉ taskKeys) (raw : Json) :
    ((∃ r, readTasks runners label raw = .ok r) ↔ AreTasks runners raw) ∧
    ∀ r, readTasks runners label raw = .ok r →
      (∀ t ∈ r.1, t.runner ∈ runners) ∧ r.2 = tasksWarnings runners label (some raw) := by
  cases raw with
  | null =>
      refine ⟨⟨fun _ => trivial, fun _ => ⟨_, rfl⟩⟩, fun r read => ?_⟩
      cases read
      exact ⟨nofun, rfl⟩
  | arr items =>
      have reads (r : List Task × List String) : readTasks runners label (.arr items) = .ok r ↔
          ∃ results, items.mapM (readTask runners label) = .ok results ∧
            r = (results.map (·.1), results.flatMap (·.2)) := by
        show (items.mapM (readTask runners label) >>= fun results =>
          pure (results.map (·.1), results.flatMap (·.2))) = .ok r ↔ _
        simp only [bind_eq_ok_iff, pure_eq_ok_iff]
      constructor
      · have each : (∃ r, readTasks runners label (.arr items) = .ok r) ↔
            ∃ results, items.mapM (readTask runners label) = .ok results := by
          simp only [reads]
          constructor
          · rintro ⟨_, results, read, -⟩
            exact ⟨results, read⟩
          · rintro ⟨results, read⟩
            exact ⟨_, results, read, rfl⟩
        rw [each, exists_mapM_iff]
        exact forall₂_congr fun raw _ => (readTask_iff apart raw).1
      · intro r read
        obtain ⟨results, each, rfl⟩ := (reads r).1 read
        exact tasks_of_forall₂ apart (mapM_eq_ok_iff.1 each)
  | _ =>
      refine ⟨⟨?_, False.elim⟩, ?_⟩
      · rintro ⟨r, read⟩
        cases read
      · intro r read
        cases read

/-! ## Plays -/

section Members

variable {α : Type} {key : String} {missing a : α} {read : Json → Except CompileError α}

theorem readMember_eq_ok_iff : readMember members key missing read = .ok a ↔
    (Dict.lookupEntry key members = none ∧ a = missing) ∨
      ∃ v, Dict.lookupEntry key members = some v ∧ read v = .ok a := by
  unfold readMember
  cases Dict.lookupEntry key members <;> simp [eq_comm]

theorem exists_readMember_iff {IsFit : Json → Prop} (fits : ∀ v, (∃ a, read v = .ok a) ↔ IsFit v) :
    (∃ a, readMember members key missing read = .ok a) ↔
      ∀ v, Dict.lookupEntry key members = some v → IsFit v := by
  unfold readMember
  cases found : Dict.lookupEntry key members with
  | none => simp
  | some v => simpa using fits v

end Members

/-- The tasks or handlers of a play. -/
theorem readMember_tasks (apart : ∀ r ∈ runners, r ∉ taskKeys) {key : String}
    {r : List Task × List String}
    (read : readMember members key ([], []) (readTasks runners label) = .ok r) :
    (∀ t ∈ r.1, t.runner ∈ runners) ∧
      r.2 = tasksWarnings runners label (Dict.lookupEntry key members) := by
  rcases readMember_eq_ok_iff.1 read with ⟨missing, rfl⟩ | ⟨v, found, read⟩
  · rw [missing]
    exact ⟨nofun, rfl⟩
  · rw [found]
    exact (readTasks_iff apart v).2 r read

theorem label_eq {index : Nat} {name : String}
    (read : readMember members "name" "" (readString "play.name") = .ok name) :
    (if name.isEmpty then s!"play[{index}]" else name) = playLabel index members := by
  unfold playLabel
  rcases readMember_eq_ok_iff.1 read with ⟨missing, rfl⟩ | ⟨v, found, read⟩
  · rw [missing]
    rfl
  · rw [found, Option.bind_some, readString_eq_ok_iff.1 read]

/-- The results of reading the members of a play mapping. -/
theorem readPlay_eq_ok_iff {index : Nat} {r : Play × List String} :
    readPlay runners index (.obj members) = .ok r ↔ ∃ name hosts vars preRun tasks handlers,
      readMember members "name" "" (readString "play.name") = .ok name ∧
      readMember members "hosts" [] (readNames "play.hosts") = .ok hosts ∧
      readMember members "vars" ∅ (readVars "play.vars") = .ok vars ∧
      readMember members "pre_run" [] (readCommands "play.pre_run") = .ok preRun ∧
      readMember members "tasks" ([], []) (readTasks runners (playLabel index members)) =
        .ok tasks ∧
      readMember members "handlers" ([], []) (readTasks runners (playLabel index members)) =
        .ok handlers ∧
      r = (⟨name, hosts, vars, tasks.1, handlers.1, preRun⟩,
        (((members.map (·.1)).filter fun key => !playKeys.contains key).map
          fun key => s!"{playLabel index members}: {key}") ++ tasks.2 ++ handlers.2) := by
  unfold readPlay
  constructor
  · intro read
    obtain ⟨_, same, read⟩ := bind_eq_ok_iff.1 read
    cases same
    obtain ⟨name, named, read⟩ := bind_eq_ok_iff.1 read
    simp only [label_eq named] at read
    obtain ⟨hosts, hosted, read⟩ := bind_eq_ok_iff.1 read
    obtain ⟨vars, bound, read⟩ := bind_eq_ok_iff.1 read
    obtain ⟨preRun, prepared, read⟩ := bind_eq_ok_iff.1 read
    obtain ⟨tasks, tasked, read⟩ := bind_eq_ok_iff.1 read
    obtain ⟨handlers, handled, read⟩ := bind_eq_ok_iff.1 read
    exact ⟨name, hosts, vars, preRun, tasks, handlers, named, hosted, bound, prepared, tasked,
      handled, pure_eq_ok_iff.1 read⟩
  · rintro ⟨name, hosts, vars, preRun, tasks, handlers, named, hosted, bound, prepared, tasked,
      handled, rfl⟩
    refine bind_eq_ok_iff.2 ⟨members, rfl, bind_eq_ok_iff.2 ⟨name, named, ?_⟩⟩
    simp only [label_eq named]
    exact bind_eq_ok_iff.2 ⟨hosts, hosted, bind_eq_ok_iff.2 ⟨vars, bound, bind_eq_ok_iff.2
      ⟨preRun, prepared, bind_eq_ok_iff.2 ⟨tasks, tasked, bind_eq_ok_iff.2
        ⟨handlers, handled, rfl⟩⟩⟩⟩⟩

/-- The members of a play compile, to a play whose tasks have known runners. -/
theorem readPlay_obj (apart : ∀ r ∈ runners, r ∉ taskKeys) (index : Nat) :
    ((∃ r, readPlay runners index (.obj members) = .ok r) ↔ IsPlay runners members) ∧
    ∀ r, readPlay runners index (.obj members) = .ok r →
      (∀ t ∈ r.1.tasks ++ r.1.handlers, t.runner ∈ runners) ∧
        r.2 = playWarnings runners index (.obj members) := by
  constructor
  · have areTasks (v : Json) : (∃ r, readTasks runners (playLabel index members) v = .ok r) ↔
        AreTasks runners v := (readTasks_iff apart v).1
    simp only [readPlay_eq_ok_iff]
    constructor
    · rintro ⟨_, name, hosts, vars, preRun, tasks, handlers, named, hosted, bound, prepared, tasked,
        handled, -⟩
      exact {
        name := (exists_readMember_iff fun _ => exists_readString_iff).1 ⟨name, named⟩
        hosts := (exists_readMember_iff fun _ => exists_readNames_iff).1 ⟨hosts, hosted⟩
        vars := (exists_readMember_iff fun _ => exists_readVars_iff).1 ⟨vars, bound⟩
        preRun := (exists_readMember_iff fun _ => exists_readCommands_iff).1 ⟨preRun, prepared⟩
        tasks := (exists_readMember_iff areTasks).1 ⟨tasks, tasked⟩
        handlers := (exists_readMember_iff areTasks).1 ⟨handlers, handled⟩ }
    · intro play
      obtain ⟨name, named⟩ := (exists_readMember_iff fun _ => exists_readString_iff).2 play.name
      obtain ⟨hosts, hosted⟩ := (exists_readMember_iff fun _ => exists_readNames_iff).2 play.hosts
      obtain ⟨vars, bound⟩ := (exists_readMember_iff fun _ => exists_readVars_iff).2 play.vars
      obtain ⟨preRun, prepared⟩ :=
        (exists_readMember_iff fun _ => exists_readCommands_iff).2 play.preRun
      obtain ⟨tasks, tasked⟩ := (exists_readMember_iff areTasks).2 play.tasks
      obtain ⟨handlers, handled⟩ := (exists_readMember_iff areTasks).2 play.handlers
      exact ⟨_, name, hosts, vars, preRun, tasks, handlers, named, hosted, bound, prepared, tasked,
        handled, rfl⟩
  · intro r read
    obtain ⟨name, hosts, vars, preRun, tasks, handlers, -, -, -, -, tasked, handled, rfl⟩ :=
      readPlay_eq_ok_iff.1 read
    obtain ⟨known, warnings⟩ := readMember_tasks apart tasked
    obtain ⟨knownHandlers, handlerWarnings⟩ := readMember_tasks apart handled
    refine ⟨List.forall_mem_append.2 ⟨known, knownHandlers⟩, ?_⟩
    rw [warnings, handlerWarnings]
    rfl

/-- A play mapping compiles if its members are those of a play. -/
theorem readPlay_iff (apart : ∀ r ∈ runners, r ∉ taskKeys) (index : Nat) (raw : Json) :
    ((∃ r, readPlay runners index raw = .ok r) ↔
      ∃ members, raw = .obj members ∧ IsPlay runners members) ∧
    ∀ r, readPlay runners index raw = .ok r →
      (∀ t ∈ r.1.tasks ++ r.1.handlers, t.runner ∈ runners) ∧
        r.2 = playWarnings runners index raw := by
  cases raw with
  | obj members => simpa using readPlay_obj apart index
  | _ =>
      refine ⟨⟨?_, ?_⟩, ?_⟩
      · rintro ⟨r, read⟩
        cases read
      · rintro ⟨members, same, -⟩
        cases same
      · intro r read
        cases read

/-! ## The whole document -/

/-- Plays compile one after the other. -/
theorem readPlays_iff (apart : ∀ r ∈ runners, r ∉ taskKeys) (index : Nat) (items : List Json) :
    ((∃ r, readPlays runners index items = .ok r) ↔
      ∀ item ∈ items, ∃ members, item = .obj members ∧ IsPlay runners members) ∧
    ∀ r, readPlays runners index items = .ok r →
      (∀ p ∈ r.1, ∀ t ∈ p.tasks ++ p.handlers, t.runner ∈ runners) ∧
        r.2 = (items.mapIdx fun i raw => playWarnings runners (index + i) raw).flatten := by
  induction items generalizing index with
  | nil =>
      refine ⟨⟨fun _ => nofun, fun _ => ⟨_, rfl⟩⟩, fun r read => ?_⟩
      cases read
      exact ⟨nofun, rfl⟩
  | cons raw rest ih =>
      have first := readPlay_iff apart index raw
      have later := ih (index + 1)
      have reads (r : List Play × List String) : readPlays runners index (raw :: rest) = .ok r ↔
          ∃ p, readPlay runners index raw = .ok p ∧
            ∃ ps, readPlays runners (index + 1) rest = .ok ps ∧ r = (p.1 :: ps.1, p.2 ++ ps.2) := by
        show (readPlay runners index raw >>= fun p => readPlays runners (index + 1) rest >>=
          fun ps => pure (p.1 :: ps.1, p.2 ++ ps.2)) = .ok r ↔ _
        simp only [bind_eq_ok_iff, pure_eq_ok_iff]
      constructor
      · rw [List.forall_mem_cons, ← first.1, ← later.1]
        constructor
        · rintro ⟨r, read⟩
          obtain ⟨p, one, ps, more, -⟩ := (reads r).1 read
          exact ⟨⟨p, one⟩, ps, more⟩
        · rintro ⟨⟨p, one⟩, ps, more⟩
          exact ⟨_, (reads _).2 ⟨p, one, ps, more, rfl⟩⟩
      · intro r read
        obtain ⟨p, one, ps, more, rfl⟩ := (reads r).1 read
        obtain ⟨known, warnings⟩ := first.2 p one
        obtain ⟨laterKnown, laterWarnings⟩ := later.2 ps more
        refine ⟨List.forall_mem_cons.2 ⟨known, laterKnown⟩, ?_⟩
        rw [List.mapIdx_cons, List.flatten_cons, warnings, laterWarnings]
        simp only [Nat.add_zero, Nat.add_assoc, Nat.add_comm 1]

end Fleet.Compile

namespace Fleet

open Compile

theorem Playbook.runner_of_mem_expandLoops {b : Playbook} {known : String → Prop}
    (each : ∀ p ∈ b.plays, ∀ t ∈ p.tasks ++ p.handlers, known t.runner) :
    ∀ p ∈ b.expandLoops.plays, ∀ t ∈ p.tasks ++ p.handlers, known t.runner := by
  intro p image t inside
  rw [expandLoops_eq] at image
  obtain ⟨q, member, rfl⟩ := List.mem_map.1 image
  rcases List.mem_append.1 inside with task | handler
  · obtain ⟨u, origin, copy⟩ := List.mem_flatMap.1 task
    rw [Task.runner_of_mem_expand copy]
    exact each q member u (List.mem_append_left _ origin)
  · exact each q member t (List.mem_append_right _ handler)

/-- The documents that compile are those that `IsDocument` describes. What comes out of one names
runners of the compiler alone, and the keys without a meaning in their order. -/
theorem compile_iff {runners : List String} (apart : ∀ r ∈ runners, r ∉ taskKeys)
    (document : Json) :
    ((∃ c, compile runners document = .ok c) ↔ IsDocument runners document) ∧
    ∀ c, compile runners document = .ok c →
      (∀ p ∈ c.playbook.plays, ∀ t ∈ p.tasks ++ p.handlers, t.runner ∈ runners) ∧
        c.warnings = documentWarnings runners document := by
  cases document with
  | null =>
      refine ⟨⟨fun _ => trivial, fun _ => ⟨_, rfl⟩⟩, fun c compiled => ?_⟩
      cases compiled
      exact ⟨nofun, rfl⟩
  | arr items =>
      have plays := readPlays_iff apart 0 items
      have compiles (c : Compilation) : compile runners (.arr items) = .ok c ↔
          ∃ r, readPlays runners 0 items = .ok r ∧ c = ⟨Playbook.expandLoops ⟨r.1⟩, r.2⟩ := by
        show (readPlays runners 0 items >>= fun r =>
          pure ⟨Playbook.expandLoops ⟨r.1⟩, r.2⟩) = .ok c ↔ _
        simp only [bind_eq_ok_iff, pure_eq_ok_iff]
      constructor
      · refine Iff.trans ⟨?_, ?_⟩ plays.1
        · rintro ⟨c, compiled⟩
          obtain ⟨r, read, -⟩ := (compiles c).1 compiled
          exact ⟨r, read⟩
        · rintro ⟨r, read⟩
          exact ⟨_, (compiles _).2 ⟨r, read, rfl⟩⟩
      · intro c compiled
        obtain ⟨r, read, rfl⟩ := (compiles c).1 compiled
        obtain ⟨known, warnings⟩ := plays.2 r read
        refine ⟨Playbook.runner_of_mem_expandLoops known, ?_⟩
        simpa only [Nat.zero_add, documentWarnings] using warnings
  | _ =>
      refine ⟨⟨?_, False.elim⟩, ?_⟩
      · rintro ⟨c, compiled⟩
        cases compiled
      · intro c compiled
        cases compiled

namespace Compile.Sample

def runners : List String := ["command", "debug"]

/-- Two plays, the first with a task in shorthand, a task that names its runner, and keys that mean
nothing. -/
def document : Json := .arr [
  .obj [("become", .bool true), ("handlers", .arr [.obj [("debug", .null), ("when", .null)]]),
    ("name", .str "web"), ("tasks", .arr [
      .obj [("command", .str "uptime"), ("notify", .arr [.int 1]), ("retries", .int 3)],
      .obj [("loop", .arr [.int 1, .int 2]), ("runner", .str "debug")]])],
  .obj [("gather", .null), ("hosts", .str "a, b")]]

end Compile.Sample

theorem compile_iff_sample : (∀ r ∈ Sample.runners, r ∉ taskKeys) ∧
    ∃ c, compile Sample.runners Sample.document = .ok c ∧
      IsDocument Sample.runners Sample.document ∧
      (∀ p ∈ c.playbook.plays, ∀ t ∈ p.tasks ++ p.handlers, t.runner ∈ Sample.runners) ∧
      c.warnings = ["web: become", "web: task key retries", "web: task key when",
        "play[1]: gather"] := by
  have apart : ∀ r ∈ Sample.runners, r ∉ taskKeys := by decide
  obtain ⟨accepted, result⟩ := compile_iff apart Sample.document
  cases compiled : compile Sample.runners Sample.document with
  | error e =>
      have fine : (compile Sample.runners Sample.document).isOk = true := by decide +kernel
      rw [compiled] at fine
      cases fine
  | ok c =>
      obtain ⟨known, warnings⟩ := result c compiled
      exact ⟨apart, c, rfl, accepted.1 ⟨c, compiled⟩, known, warnings.trans (by decide +kernel)⟩

end Fleet
