/-
# Fields of a document

A task mapping tells a field of its task by a key, and where the key stands twice the last member
counts. A member sets the field that it tells and leaves the others (`sets_of_withMember`), so the
members of a mapping set what they tell together, whatever stands between them. A compiled play has
the hosts that its mapping tells, and its tasks and handlers have what theirs tell, one by one
(`readFrom_of_compile`).
-/

import Fleet.Proofs.Playbook.Acceptance

namespace Fleet.Compile

variable {runners : List String} {label key field : String} {draft next : Draft}
  {m : String × Json} {members : List (String × Json)} {raw value : Json}

/-! ## What is told -/

/-- The items of a sequence; any other value has none. -/
def itemsOf (value : Json) : List Json := value.asArray?.getD []

/-- The sequence under a key of a mapping. -/
def under (key : String) (mapping : Json) : List Json :=
  ((mapping.member? key).map itemsOf).getD []

/-- The text of a scalar; any other value has none. -/
def textOf (value : Json) : String := (scalarText? value).getD ""

/-- The names that a value lists: those of a line, or those of the lines of a sequence. -/
def namesOf : Json → List String
  | .str line => Shorthand.names line
  | .arr items => items.flatMap fun item => ((scalarText? item).map Shorthand.names).getD []
  | _ => []

/-- The value that members of a task mapping tell for a field. The key of the field means something
else where it is the name of a runner. -/
def told? (runners : List String) (key : String) (members : List (String × Json)) : Option Json :=
  if runners.contains key then none else Dict.lookupEntry key members.reverse

/-- The value that a task mapping tells for a field. -/
def tells? (runners : List String) (key : String) : Json → Option Json
  | .obj members => told? runners key members
  | _ => none

variable (runners key) in
@[simp] theorem told?_nil : told? runners key [] = none := ite_self none

variable (runners key m members) in
theorem told?_cons : told? runners key (m :: members) =
    (told? runners key members).or (told? runners key [m]) := by
  unfold told?
  split
  · rfl
  · rw [List.reverse_cons, Dict.lookupEntry_append, List.reverse_singleton]

/-- A member tells the field that its key names, unless that is the name of a runner. -/
theorem told?_single : told? runners key [m] =
    if m.1 = key ∧ key ∉ runners then some m.2 else none := by
  by_cases listed : key ∈ runners
  · simp [told?, listed]
  · simp [told?, listed, Dict.lookupEntry, eq_comm]

/-! ## Values -/

theorem eq_itemsOf {items : List Json} (read : readItems field value = .ok items) :
    items = itemsOf value := by
  cases value <;> cases read <;> rfl

theorem eq_textOf {text : String} (read : readString field value = .ok text) :
    text = textOf value := by
  rw [textOf, readString_eq_ok_iff.1 read, Option.getD_some]

theorem names_of_forall₂ {items : List Json} {lines : List String}
    (each : List.Forall₂ (fun item line => readString field item = .ok line) items lines) :
    lines.flatMap Shorthand.names = namesOf (.arr items) := by
  induction each with
  | nil => rfl
  | cons first _ ih =>
      simp only [namesOf, List.flatMap_cons, readString_eq_ok_iff.1 first, Option.map_some,
        Option.getD_some] at ih ⊢
      rw [ih]

theorem eq_namesOf {names : List String} (read : readNames field value = .ok names) :
    names = namesOf value := by
  cases value with
  | arr items =>
      obtain ⟨lines, each, same⟩ := bind_eq_ok_iff.1 read
      rw [pure_eq_ok_iff.1 same, names_of_forall₂ (mapM_eq_ok_iff.1 each)]
  | _ => cases read <;> rfl

/-! ## Tasks -/

/-- What members of a task mapping make of one field of a task: it is as they tell it, or as it was
where they tell nothing for it. -/
def SetsField {α : Type} (runners : List String) (members : List (String × Json)) (key : String)
    (read : Json → α) (before after : α) : Prop :=
  after = ((told? runners key members).map read).getD before

namespace SetsField

variable {α : Type} {read : Json → α} {a b c : α}

theorem nil (a : α) : SetsField runners [] key read a a := by
  rw [SetsField, told?_nil]
  rfl

/-- What a member tells counts where the members behind it tell nothing. -/
theorem cons (member : SetsField runners [m] key read a b)
    (later : SetsField runners members key read b c) :
    SetsField runners (m :: members) key read a c := by
  rw [SetsField] at *
  rw [later, member, told?_cons runners key m members]
  cases told? runners key members <;> rfl

/-- A member that tells nothing for a field leaves it. -/
theorem of_other (other : told? runners key [m] = none) (a : α) :
    SetsField runners [m] key read a a := by
  rw [SetsField, other]
  rfl

end SetsField

/-- What members of a task mapping make of the fields of a task. -/
structure Sets (runners : List String) (members : List (String × Json)) (before after : Task) :
    Prop where
  name : SetsField runners members "name" textOf before.name after.name
  notify : SetsField runners members "notify" namesOf before.notify after.notify
  tags : SetsField runners members "tags" namesOf before.tags after.tags
  loop : SetsField runners members "loop" itemsOf before.loop after.loop

theorem sets_nil (t : Task) : Sets runners [] t t := ⟨.nil _, .nil _, .nil _, .nil _⟩

theorem Sets.cons {first middle last : Task} (member : Sets runners [m] first middle)
    (later : Sets runners members middle last) : Sets runners (m :: members) first last where
  name := member.name.cons later.name
  notify := member.notify.cons later.notify
  tags := member.tags.cons later.tags
  loop := member.loop.cons later.loop

theorem Sets.of_read {α : Type} {read : Except CompileError α} {set : α → Draft}
    (done : (read >>= fun a => pure (set a)) = .ok next)
    (each : ∀ a, read = .ok a → Sets runners [m] draft.task (set a).task) :
    Sets runners [m] draft.task next.task := by
  obtain ⟨a, given, same⟩ := bind_eq_ok_iff.1 done
  rw [pure_eq_ok_iff.1 same]
  exact each a given

/-- The member that tells the runner sets the arguments. -/
theorem sets_of_withRunner (tells : key ∈ runners ∨ key = "runner")
    (done : draft.withRunner key value = .ok next) :
    Sets runners [(key, value)] draft.task next.task := by
  have other : ∀ k ∈ ["name", "notify", "tags", "loop"], told? runners k [(key, value)] = none := by
    intro k field
    rw [told?_single]
    apply if_neg
    rintro ⟨(rfl : key = k), unlisted⟩
    obtain rfl : key = "runner" := tells.resolve_left unlisted
    revert field
    decide
  have kept (args : Args) : Sets runners [(key, value)] draft.task { draft.task with args } :=
    ⟨.of_other (other _ (by decide)) _, .of_other (other _ (by decide)) _,
      .of_other (other _ (by decide)) _, .of_other (other _ (by decide)) _⟩
  unfold Draft.withRunner at done
  cases taken : draft.runner with
  | some first =>
      simp only [taken] at done
      split at done
      · obtain ⟨name, -, failed⟩ := bind_eq_ok_iff.1 done
        cases failed
      · cases done
  | none =>
      simp only [taken] at done
      split at done
      · obtain ⟨name, -, done⟩ := bind_eq_ok_iff.1 done
        exact .of_read done fun args _ => kept args
      · exact .of_read done fun args _ => kept args

/-- A member sets the field that it tells and leaves the others. -/
theorem sets_of_withMember (done : draft.withMember runners label m = .ok next) :
    Sets runners [m] draft.task next.task := by
  obtain ⟨key, value⟩ := m
  unfold Draft.withMember at done
  simp only [Bool.or_eq_true, List.contains_iff_mem, decide_eq_true_eq] at done
  split at done
  · next tells => exact sets_of_withRunner tells done
  next silent =>
  have unlisted : key ∉ runners := fun listed => silent (.inl listed)
  split at done
  · next same =>
      subst same
      refine .of_read done fun name read => ?_
      constructor <;> simp [SetsField, told?_single, unlisted, eq_textOf read]
  next unnamed =>
  split at done
  · next same =>
      subst same
      refine .of_read done fun args _ => ?_
      constructor <;> simp [SetsField, told?_single]
  split at done
  · next same =>
      subst same
      refine .of_read done fun guard _ => ?_
      constructor <;> simp [SetsField, told?_single]
  split at done
  · next same =>
      subst same
      refine .of_read done fun names read => ?_
      constructor <;> simp [SetsField, told?_single, unlisted, eq_namesOf read]
  next silent =>
  split at done
  · next same =>
      subst same
      refine .of_read done fun names read => ?_
      constructor <;> simp [SetsField, told?_single, unlisted, eq_namesOf read]
  next untagged =>
  split at done
  · next same =>
      subst same
      refine .of_read done fun vars _ => ?_
      constructor <;> simp [SetsField, told?_single]
  split at done
  · next same =>
      subst same
      refine .of_read done fun items read => ?_
      constructor <;> simp [SetsField, told?_single, unlisted, eq_itemsOf read]
  · next unlooped =>
      rw [← Except.ok.inj done]
      constructor <;> simp [SetsField, told?_single, unnamed, silent, untagged, unlooped]

/-- Members set together what they tell. -/
theorem sets_of_foldlM (done : members.foldlM (Draft.withMember runners label) draft = .ok next) :
    Sets runners members draft.task next.task := by
  induction members generalizing draft with
  | nil =>
      rw [List.foldlM_nil, pure_eq_ok_iff] at done
      rw [done]
      exact sets_nil draft.task
  | cons m members ih =>
      rw [List.foldlM_cons] at done
      obtain ⟨middle, first, later⟩ := bind_eq_ok_iff.1 done
      exact (sets_of_withMember first).cons (ih later)

/-- The fields of a compiled task, as its mapping tells them. -/
structure ReadFrom (runners : List String) (raw : Json) (t : Task) : Prop where
  name : t.name = ((tells? runners "name" raw).map textOf).getD ""
  notify : t.notify = ((tells? runners "notify" raw).map namesOf).getD []
  tags : t.tags = ((tells? runners "tags" raw).map namesOf).getD []
  loop : t.loop = ((tells? runners "loop" raw).map itemsOf).getD []

theorem readFrom_of_readTask {r : Task × List String} (read : readTask runners label raw = .ok r) :
    ReadFrom runners raw r.1 := by
  cases raw with
  | obj members =>
      obtain ⟨draft, folded, finished⟩ := bind_eq_ok_iff.1
        (show members.foldlM (Draft.withMember runners label) {} >>=
          Draft.finish runners label = .ok r from read)
      obtain ⟨name, -, -, -, task⟩ := finish_eq_ok_iff.1 finished
      obtain ⟨name, notify, tags, loop⟩ := sets_of_foldlM folded
      rw [task]
      exact ⟨name, notify, tags, loop⟩
  | _ => cases read

theorem readFrom_of_readTasks {r : List Task × List String}
    (read : readTasks runners label raw = .ok r) :
    List.Forall₂ (ReadFrom runners) (itemsOf raw) r.1 := by
  obtain ⟨items, sequence, read⟩ := bind_eq_ok_iff.1 read
  obtain ⟨results, each, same⟩ := bind_eq_ok_iff.1 read
  rw [pure_eq_ok_iff.1 same, ← eq_itemsOf sequence, List.forall₂_map_right_iff]
  exact (mapM_eq_ok_iff.1 each).imp fun _ _ => readFrom_of_readTask

/-! ## Plays -/

theorem readFrom_of_readMember {r : List Task × List String}
    (read : readMember members key ([], []) (readTasks runners label) = .ok r) :
    List.Forall₂ (ReadFrom runners) (under key (.obj members)) r.1 := by
  have found : (Json.obj members).member? key = Dict.lookupEntry key members := rfl
  rw [under, found]
  rcases readMember_eq_ok_iff.1 read with ⟨missing, rfl⟩ | ⟨value, present, read⟩
  · rw [missing]
    exact .nil
  · rw [present]
    exact readFrom_of_readTasks read

/-- The fields of a compiled play, as its mapping tells them. -/
structure PlayReadFrom (runners : List String) (raw : Json) (p : Play) : Prop where
  hosts : p.hosts = ((raw.member? "hosts").map namesOf).getD []
  tasks : List.Forall₂ (ReadFrom runners) (under "tasks" raw) p.tasks
  handlers : List.Forall₂ (ReadFrom runners) (under "handlers" raw) p.handlers

theorem hosts_of_readMember {hosts : List String}
    (read : readMember members key [] (readNames field) = .ok hosts) :
    hosts = (((Json.obj members).member? key).map namesOf).getD [] := by
  have found : (Json.obj members).member? key = Dict.lookupEntry key members := rfl
  rw [found]
  rcases readMember_eq_ok_iff.1 read with ⟨missing, rfl⟩ | ⟨value, present, read⟩
  · rw [missing]
    rfl
  · rw [present]
    exact eq_namesOf read

theorem readFrom_of_readPlay {index : Nat} {r : Play × List String}
    (read : readPlay runners index raw = .ok r) : PlayReadFrom runners raw r.1 := by
  cases raw with
  | obj members =>
      obtain ⟨_, _, _, _, tasks, handlers, -, hosted, -, -, tasked, handled, rfl⟩ :=
        readPlay_eq_ok_iff.1 read
      exact ⟨hosts_of_readMember hosted, readFrom_of_readMember tasked,
        readFrom_of_readMember handled⟩
  | _ => cases read

theorem readFrom_of_readPlays {index : Nat} {items : List Json} {r : List Play × List String}
    (read : readPlays runners index items = .ok r) :
    List.Forall₂ (PlayReadFrom runners) items r.1 := by
  induction items generalizing index r with
  | nil =>
      cases read
      exact .nil
  | cons raw items ih =>
      obtain ⟨play, first, read⟩ := bind_eq_ok_iff.1 read
      obtain ⟨plays, later, same⟩ := bind_eq_ok_iff.1 read
      rw [pure_eq_ok_iff.1 same]
      exact .cons (readFrom_of_readPlay first) (ih later)

/-- A compiled playbook is expanded from plays that have what the play mappings of its document
tell. -/
theorem readFrom_of_compile {document : Json} {c : Compilation}
    (compiled : compile runners document = .ok c) : ∃ plays,
      List.Forall₂ (PlayReadFrom runners) (itemsOf document) plays ∧
        c.playbook = Playbook.expandLoops ⟨plays⟩ := by
  cases document with
  | null =>
      cases compiled
      exact ⟨[], .nil, rfl⟩
  | arr items =>
      obtain ⟨r, read, same⟩ := bind_eq_ok_iff.1 compiled
      rw [pure_eq_ok_iff.1 same]
      exact ⟨r.1, readFrom_of_readPlays read, rfl⟩
  | _ => cases compiled

end Fleet.Compile
