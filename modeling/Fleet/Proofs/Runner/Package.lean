/-
# Runs on packages

A task on packages asks for the status of each package that it lists, and then hands those that are
not as it wants them to one command. `Course` says what is run and what comes of it, whatever the
host answers. So a task acts once at most, on what is left to do, and not at all where nothing is;
run again on packages that are as it wants them it does nothing and changes nothing. The one
exception is a task that is to fetch the lists of packages first and cannot: it ends with that
failure, before it asks for any package (`run_settles`).

A task that wants the newest packages hands on all of them, and what the tool wrote decides whether
anything changed. The phrase that tells of no change is looked for anywhere in it, and is found in
the line that tells of ten upgrades too (`latest_changed_iff`).
-/

import Fleet.Host.Machine
import Fleet.Proofs.Host.Dialogue
import Fleet.Proofs.Json.Reader
import Fleet.Proofs.Playbook.Names
import Fleet.Runner.Package

namespace Fleet

open Host
open Host.Action (After)

variable {log l : List Exchange} {o : ProgramOutput} {found : Except RunnerError TaskResult}

namespace Runner

variable {program : String} {args : List String} {directory : Option String}

/-- What comes of a program that could be run. -/
def programResult (words : List String) (o : ProgramOutput) : TaskResult :=
  if o.status.isSuccess then { TaskResult.success o.combined with changed := true }
  else
    { TaskResult.failed (Text.joined " " words ++ "\n" ++ o.status.text ++ ":\n" ++ o.combined) with
      changed := true }

theorem isFailed_programResult (words : List String) (o : ProgramOutput) :
    (programResult words o).isFailed = !o.status.isSuccess := by
  unfold programResult
  cases o.status.isSuccess <;> rfl

theorem changed_programResult (words : List String) (o : ProgramOutput) :
    (programResult words o).changed = true := by
  unfold programResult
  cases o.status.isSuccess <;> rfl

theorem runProgram_eq : runProgram (program :: args) directory =
    (Host.run { program, args, directory }).mapError (.spawn program) >>= fun o =>
      pure (programResult (program :: args) o) := by
  unfold runProgram programResult
  dsimp only
  congr 1
  funext o
  split <;> rfl

/-- An attempt that needs a program to end well stops where it does not. -/
theorem after_runProgram {f : TaskResult → Attempt RunnerError TaskResult}
    (went : After (Attempt.outcome (do
      let r ← runProgram (program :: args) directory
      if r.isFailed then return r
      f r)) log (.done found)) :
    (∃ e, log = [⟨.run { program, args, directory }, .error e⟩] ∧
      found = .error (.spawn program e)) ∨
    ∃ o l, log = ⟨.run { program, args, directory }, .ok o⟩ :: l ∧
      (o.status.isSuccess = false ∧ l = [] ∧ found = .ok (programResult (program :: args) o) ∨
        o.status.isSuccess = true ∧
          After (f { TaskResult.success o.combined with changed := true }).outcome l
            (.done found)) := by
  rw [runProgram_eq, bind_assoc] at went
  simp only [pure_bind] at went
  refine (Attempt.after_run_bind went).imp_right ?_
  rintro ⟨o, l, rfl, rest⟩
  refine ⟨o, l, rfl, ?_⟩
  rw [isFailed_programResult] at rest
  cases ended : o.status.isSuccess with
  | false =>
      rw [ended] at rest
      exact .inl ⟨rfl, Attempt.after_pure.1 rest⟩
  | true =>
      rw [ended, programResult, if_pos ended] at rest
      exact .inr ⟨rfl, rest⟩

end Runner

namespace Package

variable {s : State} {ps left : List String} {t : Task} {needs : String → Bool}

/-- The command that asks for the status of a package. -/
def query (package : String) : Command :=
  { program := "dpkg-query", args := ["-W", "-f=$\x7bStatus\x7d", package] }

/-- The command that fetches the lists of packages. -/
def refresh : Command := { program := "apt-get", args := ["update", "-q"] }

/-- The command that brings packages into a state. -/
def acting (s : State) (packages : List String) : Command :=
  { program := "env"
    args := ["DEBIAN_FRONTEND=noninteractive", "apt-get", "-y", "-q", s.action] ++ packages }

theorem query_inj {p q : String} : query p = query q ↔ p = q := by
  simp [query]

theorem query_ne_acting (p : String) : query p ≠ acting s ps := by
  simp [query, acting]

/-- Whether a command does more than ask for a status or fetch the lists. -/
def isAction (c : Command) : Bool := c.program ≠ "dpkg-query" && c ≠ refresh

/-- The commands that may have touched packages, with their replies. -/
def actions (log : List Exchange) : List (Command × Except HostError ProgramOutput) :=
  (ran log).filter fun a => isAction a.1

theorem actions_append (l l' : List Exchange) : actions (l ++ l') = actions l ++ actions l' := by
  rw [actions, ran_append, List.filter_append]
  rfl

theorem mem_actions_iff {a : Command × Except HostError ProgramOutput} :
    a ∈ actions log ↔ a ∈ ran log ∧ isAction a.1 = true := List.mem_filter

/-! ## What is left to do -/

/-- A program could not be run, and that is what comes of it. -/
def Unrun {α : Type} (log : List Exchange) (found : Except RunnerError α) : Prop :=
  ∃ c e, (c, .error e) ∈ ran log ∧ found = .error (.spawn c.program e)

namespace Unrun

variable {α β : Type} {found : Except RunnerError α}

theorem behind (unrun : Unrun log found) : Unrun (l ++ log) found := by
  obtain ⟨c, e, member, same⟩ := unrun
  exact ⟨c, e, by rw [ran_append]; exact List.mem_append_right _ member, same⟩

theorem error {e : RunnerError} (unrun : Unrun log (.error e : Except RunnerError α)) :
    Unrun log (.error e : Except RunnerError β) := by
  obtain ⟨c, e', member, same⟩ := unrun
  cases same
  exact ⟨c, e', member, rfl⟩

end Unrun

/-- Whether a package needs something, by every status that was told of it. -/
def Finds (s : State) (needs : String → Bool) (log : List Exchange) : Prop :=
  ∀ p o, (query p, .ok o) ∈ ran log → s.needs (.ofOutput o.outText) = needs p

theorem Finds.before (finds : Finds s needs (l ++ log)) : Finds s needs l := fun p o member =>
  finds p o (by rw [ran_append]; exact List.mem_append_left _ member)

theorem Finds.behind (finds : Finds s needs (l ++ log)) : Finds s needs log := fun p o member =>
  finds p o (by rw [ran_append]; exact List.mem_append_right _ member)

theorem pending_cons (s : State) (p : String) (ps : List String) : pending s (p :: ps) =
    (Host.run (query p)).mapError (.spawn "dpkg-query") >>= fun o => do
      let rest ← pending s ps
      return if s.needs (.ofOutput o.outText) then p :: rest else rest := by
  rw [pending, List.filterMapM_cons, status, bind_assoc, bind_assoc]
  simp only [pure_bind]
  congr 1
  funext o
  cases s.needs (.ofOutput o.outText) with
  | true => rfl
  | false => exact (bind_pure _).symm

/-- To ask is not to act, and what is left is what needs something. -/
theorem after_pending {found : Except RunnerError (List String)}
    (went : After (pending s ps).outcome log (.done found)) (finds : Finds s needs log) :
    actions log = [] ∧ (found = .ok (ps.filter needs) ∨ Unrun log found) := by
  induction ps generalizing log found with
  | nil =>
      obtain ⟨rfl, rfl⟩ := Attempt.after_pure.1 went
      exact ⟨rfl, .inl rfl⟩
  | cons p ps ih =>
      rw [pending_cons] at went
      obtain ⟨e, rfl, rfl⟩ | ⟨o, l, rfl, rest⟩ := Attempt.after_run_bind went
      · exact ⟨rfl, .inr ⟨query p, e, List.mem_singleton_self _, rfl⟩⟩
      have first := finds p o List.mem_cons_self
      have finds' : Finds s needs l := finds.behind (l := [_])
      obtain ⟨e, rfl, below⟩ | ⟨l₁, l₂, left, rfl, below, last⟩ := Attempt.after_bind.1 rest
      · obtain ⟨idle, ended⟩ := ih below finds'
        have unrun := ended.resolve_left nofun
        exact ⟨idle, .inr (unrun.error.behind (l := [_]))⟩
      · obtain ⟨rfl, rfl⟩ := Attempt.after_pure.1 last
        rw [List.append_nil] at finds' ⊢
        obtain ⟨idle, ended⟩ := ih below finds'
        have same := ended.resolve_right fun ⟨_, _, _, error⟩ => nomatch error
        rw [Except.ok.inj same, first, List.filter_cons]
        exact ⟨idle, .inl rfl⟩

/-! ## One run -/

/-- How it goes where some packages are left to bring into a state: what was done to packages, and
what came of it. -/
inductive Course (s : State) (left : List String) (log : List Exchange) :
    Except RunnerError TaskResult → Prop
  /-- A program could not be run. -/
  | unrun {found : Except RunnerError TaskResult}
      (acts : actions log = [] ∨ left ≠ [] ∧ ∃ e, actions log = [(acting s left, .error e)])
      (unrun : Unrun log found) : Course s left log found
  | idle {output : String} (none : left = []) (acts : actions log = []) :
      Course s left log (.ok (.success output))
  | failed {o : ProgramOutput} (some_ : left ≠ []) (acts : actions log = [(acting s left, .ok o)])
      (failure : o.status.isSuccess = false) :
      Course s left log (.ok (Runner.programResult (actionWords s left) o))
  | acted {o : ProgramOutput} {output : String} (some_ : left ≠ [])
      (acts : actions log = [(acting s left, .ok o)]) (success : o.status.isSuccess = true) :
      Course s left log (.ok { TaskResult.success output with changed := isChange s o.combined })

namespace Course

/-- What went before without an action does not count. -/
theorem behind (course : Course s left log found) (idle : actions l = []) :
    Course s left (l ++ log) found := by
  have same : actions (l ++ log) = actions log := by rw [actions_append, idle, List.nil_append]
  cases course with
  | unrun acts unrun => exact .unrun (same.symm ▸ acts) unrun.behind
  | idle none acts => exact .idle none (same.trans acts)
  | failed some_ acts failure => exact .failed some_ (same.trans acts) failure
  | acted some_ acts success => exact .acted some_ (same.trans acts) success

theorem of_acted (course : Course s left log found) (acted : (acting s left, .ok o) ∈ ran log)
    (success : o.status.isSuccess = true) :
    ∃ output, found = .ok { TaskResult.success output with changed := isChange s o.combined } := by
  have act : (acting s left, .ok o) ∈ actions log := mem_actions_iff.2 ⟨acted, rfl⟩
  cases course with
  | unrun acts unrun =>
      rcases acts with acts | ⟨-, e, acts⟩
      · rw [acts] at act
        cases act
      · rw [acts] at act
        cases List.mem_singleton.1 act
  | idle none acts =>
      rw [acts] at act
      cases act
  | failed some_ acts failure =>
      rw [acts] at act
      cases List.mem_singleton.1 act
      exact absurd (failure.symm.trans success) Bool.false_ne_true
  | acted some_ acts _ =>
      rw [acts] at act
      cases List.mem_singleton.1 act
      exact ⟨_, rfl⟩

end Course

theorem after_action {before : String} (some_ : left ≠ [])
    (went : After (Attempt.outcome (do
      let r ← Runner.runProgram (actionWords s left) none
      if r.isFailed then return r
      return { TaskResult.success (before ++ r.output) with changed := isChange s r.output }))
      log (.done found)) : Course s left log found := by
  obtain ⟨e, rfl, rfl⟩ | ⟨o, l, rfl, ⟨failure, rfl, rfl⟩ | ⟨success, rest⟩⟩ :=
    Runner.after_runProgram went
  · exact .unrun (.inr ⟨some_, e, rfl⟩) ⟨_, e, List.mem_singleton_self _, rfl⟩
  · exact .failed some_ rfl failure
  · obtain ⟨rfl, rfl⟩ := Attempt.after_pure.1 rest
    exact .acted some_ rfl success

theorem after_settle {before : String}
    (went : After (settle s ps before).outcome log (.done found)) (finds : Finds s needs log) :
    Course s (ps.filter needs) log found := by
  unfold settle at went
  obtain ⟨e, rfl, asked⟩ | ⟨l₁, l₂, left, rfl, asked, rest⟩ := Attempt.after_bind.1 went
  · obtain ⟨idle, ended⟩ := after_pending asked finds
    have unrun := ended.resolve_left nofun
    exact .unrun (.inl idle) unrun.error
  obtain ⟨idle, ended⟩ := after_pending asked finds.before
  obtain rfl := Except.ok.inj (ended.resolve_right fun ⟨_, _, _, error⟩ => nomatch error)
  split at rest
  · next none =>
      obtain ⟨rfl, rfl⟩ := Attempt.after_pure.1 rest
      exact (Course.idle (List.isEmpty_iff.1 none) rfl).behind idle
  · next some_ =>
      have some_ : ps.filter needs ≠ [] := fun none => some_ (List.isEmpty_iff.2 none)
      exact (after_action some_ rest).behind idle

/-- The lists of packages were to be fetched first and were not, and that is what comes of it. -/
def Outdated (t : Task) (log : List Exchange) (found : Except RunnerError TaskResult) : Prop :=
  t.argBool? "update_cache" = some true ∧ ∃ o, ran log = [(refresh, .ok o)] ∧
    o.status.isSuccess = false ∧ found = .ok (Runner.programResult refresh.words o)

theorem run_eq (word : State.ofWord (t.argString? "state") = .ok s) : run t = (do
    if (listed t).isEmpty then throw (.missingArgument "apt" "name")
    if (t.argBool? "update_cache").getD false then
      let update ← Runner.runProgram refresh.words none
      if update.isFailed then return update
      settle s (listed t) update.output
    else settle s (listed t) "") := by
  unfold run
  rw [word]
  rfl

theorem after_run (word : State.ofWord (t.argString? "state") = .ok s) (some_ : listed t ≠ [])
    (went : After (run t).outcome log (.done found)) (finds : Finds s needs log) :
    Outdated t log found ∨ Course s ((listed t).filter needs) log found := by
  rw [run_eq word, if_neg fun none => some_ (List.isEmpty_iff.1 none)] at went
  cases asked : t.argBool? "update_cache" with
  | none =>
      rw [asked] at went
      exact .inr (after_settle went finds)
  | some fetch =>
  rw [asked] at went
  cases fetch with
  | false => exact .inr (after_settle went finds)
  | true =>
  obtain ⟨e, rfl, rfl⟩ | ⟨o, l, rfl, ⟨failure, rfl, rfl⟩ | ⟨success, rest⟩⟩ :=
    Runner.after_runProgram went
  · exact .inr (.unrun (.inl rfl) ⟨refresh, e, List.mem_singleton_self _, rfl⟩)
  · exact .inl ⟨asked, o, rfl, failure, rfl⟩
  · exact .inr ((after_settle rest (finds.behind (l := [_]))).behind (l := [_]) rfl)

theorem after_run_nil (word : State.ofWord (t.argString? "state") = .ok s) (none : listed t = [])
    (went : After (run t).outcome log (.done found)) :
    log = [] ∧ found = .error (.missingArgument "apt" "name") := by
  rw [run_eq word, none] at went
  exact Attempt.after_throw.1 went

/-! ## Runs that settle -/

/-- Whether a package of some status is as a state wants it. -/
def State.isMet : State → Status → Bool
  | present, st => st = .installed
  | latest, _ => false
  | absent, st => st ≠ .installed
  | purged, st => st = .missing

theorem State.needs_eq (s : State) (st : Status) : s.needs st = !s.isMet st := by
  cases s <;> cases st <;> rfl

/-- Every status that was told of a package is its status. -/
def Tells (st : String → Status) (log : List Exchange) : Prop :=
  ∀ p o, (query p, .ok o) ∈ ran log → Status.ofOutput o.outText = st p

theorem Tells.finds {st : String → Status} (tells : Tells st log) :
    Finds s (fun p => !s.isMet (st p)) log := by
  intro p o member
  rw [State.needs_eq, tells p o member]

/-- What a task does to packages of which some are left to bring into a state, and what comes of
it. -/
structure Settles (t : Task) (s : State) (left : List String) (log : List Exchange)
    (found : Except RunnerError TaskResult) : Prop where
  /-- It acts once at most, and on what is left. -/
  acts : actions log = [] ∨ left ≠ [] ∧ ∃ reply, actions log = [(acting s left, reply)]
  /-- It fails to tell a result only where a program could not be run. -/
  error : ∀ e, found = .error e → Unrun log found
  /-- Where nothing is left it changes nothing. -/
  idle : left = [] → ∀ r, found = .ok r →
    Outdated t log found ∨ r.status = .success ∧ r.changed = false
  /-- Where something is left it does act. -/
  acted : left ≠ [] → ∀ r, found = .ok r →
    Outdated t log found ∨ ∃ o, actions log = [(acting s left, .ok o)] ∧
      r.changed = true ∧ r.isFailed = !o.status.isSuccess

theorem Settles.of_outdated (outdated : Outdated t log found) : Settles t s left log found := by
  obtain ⟨-, o, alone, -, same⟩ := id outdated
  have acts : actions log = [] := by
    rw [actions, alone]
    rfl
  refine ⟨.inl acts, fun e error => ?_, fun _ _ _ => .inl outdated, fun _ _ _ => .inl outdated⟩
  cases error.symm.trans same

theorem Settles.of_course (kept : s ≠ .latest) (course : Course s left log found) :
    Settles t s left log found := by
  cases course with
  | unrun acts unrun =>
      obtain ⟨c, e, member, rfl⟩ := unrun
      refine ⟨acts.imp_right ?_, fun _ _ => ⟨c, e, member, rfl⟩, nofun, nofun⟩
      rintro ⟨some_, e, same⟩
      exact ⟨some_, _, same⟩
  | idle none acts =>
      refine ⟨.inl acts, nofun, ?_, fun some_ => absurd none some_⟩
      rintro - _ ⟨⟩
      exact .inr ⟨rfl, rfl⟩
  | failed some_ acts failure =>
      refine ⟨.inr ⟨some_, _, acts⟩, nofun, fun none => absurd none some_, ?_⟩
      rintro - _ ⟨⟩
      exact .inr ⟨_, acts, Runner.changed_programResult _ _, Runner.isFailed_programResult _ _⟩
  | acted some_ acts success =>
      refine ⟨.inr ⟨some_, _, acts⟩, nofun, fun none => absurd none some_, ?_⟩
      rintro - _ ⟨⟩
      refine .inr ⟨_, acts, ?_, ?_⟩
      · rw [isChange, decide_eq_true kept]
        rfl
      · rw [success]
        rfl

theorem itemText_of_scalarText {v : Json} {text : String}
    (told : Compile.scalarText? v = some text) : Task.itemText v = text := by
  cases v with
  | null | arr _ | obj _ => cases told
  | _ => exact Option.some.inj told

theorem listed_eq_of_writes {value : Json} {lines : List (List Shorthand.Entry)}
    (given : t.args.get? "name" = some value) (writes : Compile.Writes value lines) :
    listed t = lines.flatMap Shorthand.taken := by
  rw [listed, Task.argList, given]
  cases writes with
  | line l => simp [Shorthand.names_lineOf]
  | @sequence items lines each =>
      have same : items.map Task.itemText = lines.map Shorthand.lineOf := by
        rw [← List.forall₂_eq_eq_eq, List.forall₂_map_left_iff, List.forall₂_map_right_iff]
        exact each.imp fun _ _ => itemText_of_scalarText
      dsimp only
      rw [same, List.flatMap_map]
      simp only [Shorthand.names_lineOf]

/-- A task that lists packages acts once at most, on those that are not as it wants them, in the
order in which it lists them. Where there are none it does not act and changes nothing, and so it is
with a second run once every package is as it wants it: unless the lists of packages were to be
fetched and were not. Without packages a task is refused. -/
theorem run_settles (word : State.ofWord (t.argString? "state") = .ok s) (kept : s ≠ .latest)
    {σ : Type} (h : Action.Handler σ) (x : σ) :
    let run := (Package.run t).outcome
    let again := (run.runWith h x).2
    (∀ value lines, t.args.get? "name" = some value → Compile.Writes value lines →
      listed t = lines.flatMap Shorthand.taken) ∧
    (listed t = [] →
      run.dialogue h x = [] ∧ (run.runWith h x).1 = .error (.missingArgument "apt" "name")) ∧
    (listed t ≠ [] →
      (∀ st, Tells st (run.dialogue h x) →
        Settles t s ((listed t).filter fun p => !s.isMet (st p)) (run.dialogue h x)
          (run.runWith h x).1) ∧
      ∀ st, Tells st (run.dialogue h again) → (∀ p ∈ listed t, s.isMet (st p) = true) →
        actions (run.dialogue h again) = [] ∧ ∀ r, (run.runWith h again).1 = .ok r →
          Outdated t (run.dialogue h again) (.ok r) ∨ r.status = .success ∧ r.changed = false) := by
  have ended (y : σ) := Action.after_dialogue h (run t).outcome y
  have one (some_ : listed t ≠ []) (y : σ) (st : String → Status)
      (tells : Tells st ((run t).outcome.dialogue h y)) :
      Settles t s ((listed t).filter fun p => !s.isMet (st p)) ((run t).outcome.dialogue h y)
        ((run t).outcome.runWith h y).1 :=
    (after_run word some_ (ended y) tells.finds).elim Settles.of_outdated (Settles.of_course kept)
  refine ⟨fun _ _ => listed_eq_of_writes, fun none => after_run_nil word none (ended x),
    fun some_ => ⟨one some_ x, fun st tells met => ?_⟩⟩
  have settles := one some_ _ st tells
  have none : (listed t).filter (fun p => !s.isMet (st p)) = [] := by
    rw [List.filter_eq_nil_iff]
    intro p member
    rw [met p member]
    exact Bool.false_ne_true
  rw [none] at settles
  refine ⟨settles.acts.resolve_right fun some_ => some_.1 rfl, fun r same => ?_⟩
  rw [← same]
  exact settles.idle rfl r same

namespace Sample

/-- What a program leaves behind that ends well. -/
def wrote (text : String) : ProgramOutput where
  status := .code 0
  stdout := Text.Utf8.encode text.toList

/-- A host with `git`, which also has all other packages once something was done to packages. Its
tool always writes the same. -/
def host (transcript : String) : Action.Handler Machine :=
  Machine.handler
    { programs := fun run c files =>
        if c.program ≠ "dpkg-query" then (.ok (wrote transcript), files)
        else if c = query "git" ∨ run.any isAction = true then
          (.ok (wrote "install ok installed"), files)
        else (.ok { status := .code 1 }, files) }

/-- A host that has every package and cannot fetch the lists. -/
def offline : Action.Handler Machine :=
  Machine.handler
    { programs := fun _ c files =>
        if c = refresh then (.ok { status := .code 100 }, files)
        else (.ok (wrote "install ok installed"), files) }

/-- A task that lists one of its packages twice. -/
def listing (state : String) : Task where
  runner := "apt"
  args := Dict.ofList [("name", .arr [.str "curl, git", .str "curl"]), ("state", .str state)]

/-- A task that is to fetch the lists first. -/
def fetching : Task where
  runner := "apt"
  args := Dict.ofList [("name", .str "curl"), ("update_cache", .bool true)]

end Sample

/-- On a host with one of two packages the first run installs the other one and the second run does
nothing. -/
theorem run_settles_sample :
    let run := (run (Sample.listing "present")).outcome
    let host := Sample.host "done"
    let again := (run.runWith host {}).2
    State.ofWord ((Sample.listing "present").argString? "state") = .ok .present ∧
      State.present ≠ .latest ∧ listed (Sample.listing "present") = ["curl", "git", "curl"] ∧
      Settles (Sample.listing "present") .present ["curl", "curl"] (run.dialogue host {})
        (run.runWith host {}).1 ∧
      actions (run.dialogue host {}) =
        [(acting .present ["curl", "curl"], .ok (Sample.wrote "done"))] ∧
      actions (run.dialogue host again) = [] := by
  intro run host again
  have word : State.ofWord ((Sample.listing "present").argString? "state") = .ok .present := by
    decide +kernel
  have named : listed (Sample.listing "present") = ["curl", "git", "curl"] := by decide +kernel
  have asked : ran (run.dialogue host {}) = [(query "curl", .ok { status := .code 1 }),
      (query "git", .ok (Sample.wrote "install ok installed")),
      (query "curl", .ok { status := .code 1 }),
      (acting .present ["curl", "curl"], .ok (Sample.wrote "done"))] := by
    decide +kernel
  have asked' : ran (run.dialogue host again) = ["curl", "git", "curl"].map fun p =>
      (query p, .ok (Sample.wrote "install ok installed")) := by
    decide +kernel
  have tells : Tells (fun p => if p = "git" then .installed else .missing)
      (run.dialogue host {}) := by
    intro p o member
    simp only [asked, List.mem_cons, List.not_mem_nil, Prod.mk.injEq, Except.ok.injEq, query_inj,
      query_ne_acting, false_and, or_false] at member
    rcases member with ⟨rfl, rfl⟩ | ⟨rfl, rfl⟩ | ⟨rfl, rfl⟩ <;> decide +kernel
  have tells' : Tells (fun _ => .installed) (run.dialogue host again) := by
    intro p o member
    simp only [asked', List.map_cons, List.map_nil, List.mem_cons, List.not_mem_nil,
      Prod.mk.injEq, Except.ok.injEq, query_inj, or_false] at member
    rcases member with ⟨rfl, rfl⟩ | ⟨rfl, rfl⟩ | ⟨rfl, rfl⟩ <;> decide +kernel
  obtain ⟨-, -, settles⟩ := run_settles word (by decide) host {}
  obtain ⟨first, second⟩ := settles (by rw [named]; exact List.cons_ne_nil _ _)
  have left : (listed (Sample.listing "present")).filter (fun p => !State.present.isMet
      (if p = "git" then .installed else .missing)) = ["curl", "curl"] := by
    decide +kernel
  exact ⟨word, by decide, named, left ▸ first _ tells, by decide +kernel,
    (second _ tells' fun _ _ => rfl).1⟩

/-- The package is there, nothing is done to it, and the task is still told to have changed
something. -/
theorem offline_changed :
    State.ofWord (Sample.fetching.argString? "state") = .ok .present ∧
    listed Sample.fetching = ["curl"] ∧
    (Sample.offline (.run (query "curl")) {}).1 = .ok (Sample.wrote "install ok installed") ∧
    State.present.isMet (.ofOutput (Sample.wrote "install ok installed").outText) = true ∧
    actions ((run Sample.fetching).outcome.dialogue Sample.offline {}) = [] ∧
    ((run Sample.fetching).outcome.runWith Sample.offline {}).1.map TaskResult.changed =
      .ok true := by
  refine ⟨?_, ?_, ?_, ?_, ?_, ?_⟩ <;> decide +kernel

/-! ## The newest packages -/

/-- The start of the line in which the tool sums up what it did. -/
def summary (n m : Nat) : String := s!"{n} upgraded, {m} newly installed, "

/-- What starts with a zero and a blank starts at the end of a word or behind it. -/
theorem infix_word_iff {word p rest : List Char} (plain : ' ' ∉ word) :
    '0' :: ' ' :: p <:+: word ++ ' ' :: rest ↔
      word.getLast? = some '0' ∧ p <+: rest ∨ '0' :: ' ' :: p <:+: rest := by
  induction word with
  | nil =>
      change _ <:+: [' '] ++ rest ↔ _
      rw [Text.infix_append_iff_of_not_mem (by decide)]
      simp
  | cons d word ih =>
      obtain ⟨-, below⟩ := List.ne_and_not_mem_of_not_mem_cons plain
      rw [List.cons_append, List.infix_cons_iff, ih below, List.cons_prefix_cons]
      cases word with
      | nil => simp [eq_comm]
      | cons e word =>
          have other : e ≠ ' ' := fun same => below (same ▸ List.mem_cons_self)
          rw [List.getLast?_cons_cons, List.cons_append, List.cons_prefix_cons]
          simp [other.symm]

theorem infix_number_iff {p rest : List Char} (n : Nat) :
    '0' :: ' ' :: p <:+: Nat.toDigits 10 n ++ ' ' :: rest ↔
      n % 10 = 0 ∧ p <+: rest ∨ '0' :: ' ' :: p <:+: rest := by
  rw [infix_word_iff (Decimal.notMem_toDigits (by decide) n), Decimal.getLast?_toDigits_eq_zero_iff]

theorem prefix_number_iff {p rest : List Char} (m : Nat) (starts : p <+: rest) :
    '0' :: p <+: Nat.toDigits 10 m ++ rest ↔ m = 0 := by
  constructor
  · intro zero
    by_contra pos
    have head := Json.head?_toDigits_ne (Nat.pos_of_ne_zero pos)
    obtain ⟨d, ds, same⟩ := List.exists_cons_of_ne_nil (Nat.toDigits_ne_nil (n := m) (b := 10))
    rw [same] at head zero
    rw [List.cons_append, List.cons_prefix_cons] at zero
    exact head (congrArg some zero.1.symm)
  · rintro rfl
    exact (List.prefix_append_right_inj ['0']).2 starts

theorem infix_summary_iff {rest : List Char} (n m : Nat) :
    nothingDone.toList <:+: (summary n m).toList ++ rest ↔
      n % 10 = 0 ∧ m = 0 ∨ nothingDone.toList <:+: rest := by
  have words : (summary n m).toList ++ rest = Nat.toDigits 10 n ++ ' ' :: ("upgraded, ".toList ++
      (Nat.toDigits 10 m ++ ' ' :: ("newly installed, ".toList ++ rest))) := by
    simp [summary, Nat.toList_repr]
    rfl
  have phrase : nothingDone.toList = '0' :: ' ' :: "upgraded, 0 newly installed".toList := rfl
  have none : "upgraded, 0 newly installed".toList <+: "upgraded, ".toList ++
      (Nat.toDigits 10 m ++ ' ' :: ("newly installed, ".toList ++ rest)) ↔ m = 0 := by
    have starts : " newly installed".toList <+: ' ' :: ("newly installed, ".toList ++ rest) :=
      List.prefix_append " newly installed".toList (", ".toList ++ rest)
    rw [← prefix_number_iff m starts]
    exact List.prefix_append_right_inj "upgraded, ".toList
  have later : ¬ "upgraded, 0 newly installed".toList <+: "newly installed, ".toList ++ rest := by
    simp
  -- either number may end with the zero of the phrase, and behind the second one comes no upgrade
  rw [words, phrase, infix_number_iff, none, Text.infix_append_iff_of_not_mem (by decide),
    infix_number_iff, Text.infix_append_iff_of_not_mem (by decide)]
  simp only [later, and_false, false_or]

/-- The phrase is found in the line that sums up exactly if no package was installed and the number
of upgrades ends with a zero. It may be found before that line or behind it, too. -/
theorem infix_transcript_iff {before rest : List Char} (n m : Nat)
    (start : ∀ c ∈ before.getLast?, c = '\n') :
    nothingDone.toList <:+: before ++ ((summary n m).toList ++ rest) ↔
      (n % 10 = 0 ∧ m = 0) ∨ nothingDone.toList <:+: before ∨ nothingDone.toList <:+: rest := by
  rcases List.eq_nil_or_concat before with rfl | ⟨front, c, rfl⟩
  · rw [List.nil_append, infix_summary_iff]
    simp [nothingDone]
  · obtain rfl := start c (by simp)
    have single : '\n' ∉ nothingDone.toList := by decide
    have some_ : nothingDone.toList ≠ [] := by decide
    rw [List.concat_eq_append, List.append_assoc, List.singleton_append,
      Text.infix_append_cons_iff single some_, Text.infix_append_cons_iff single some_,
      infix_summary_iff, List.infix_nil, or_iff_left some_, or_left_comm]

/-- Where the newest packages were wanted and the tool ended well, something changed exactly if the
phrase is nowhere in what the tool wrote. Ten upgrades, or any number that ends with a zero, without
a new package are told as no change; every other line that sums up is taken as it is meant, if the
phrase is not in the text before it or behind it. -/
theorem latest_changed_iff (word : State.ofWord (t.argString? "state") = .ok .latest)
    {σ : Type} {h : Action.Handler σ} {x : σ}
    (acted : (acting .latest (listed t), .ok o) ∈ ran ((run t).outcome.dialogue h x))
    (success : o.status.isSuccess = true) {before rest : List Char} {n m : Nat}
    (start : ∀ c ∈ before.getLast?, c = '\n')
    (reads : o.combined.toList = before ++ ((summary n m).toList ++ rest)) :
    ∃ r, ((run t).outcome.runWith h x).1 = .ok r ∧ r.status = .success ∧
      (r.changed = true ↔ (n % 10 ≠ 0 ∨ 0 < m) ∧ ¬ nothingDone.toList <:+: before ∧
        ¬ nothingDone.toList <:+: rest) := by
  have ended := Action.after_dialogue h (run t).outcome x
  have some_ : listed t ≠ [] := by
    intro none
    rw [(after_run_nil word none ended).1] at acted
    cases acted
  have finds : Finds .latest (fun _ => true) ((run t).outcome.dialogue h x) := fun _ _ _ => rfl
  rcases after_run word some_ ended finds with ⟨-, o', alone, -, -⟩ | course
  · rw [alone] at acted
    simp [acting, refresh] at acted
  rw [List.filter_true] at course
  obtain ⟨output, found⟩ := course.of_acted acted success
  refine ⟨_, found, rfl, ?_⟩
  have phrase : nothingDone.toList <:+: o.combined.toList ↔ _ :=
    reads ▸ infix_transcript_iff n m start
  rw [← Text.hasPart_iff_isInfix] at phrase
  change isChange .latest o.combined = true ↔ _
  rw [isChange, ← not_or, Nat.pos_iff_ne_zero, ← not_and_or, ← not_or, ← phrase]
  simp

namespace Sample

/-- What the tool writes behind the line's numbers. -/
def ending : String := "0 to remove and 0 not upgraded.\n"

end Sample

theorem latest_changed_sample :
    let run := (run (Sample.listing "latest")).outcome
    let o := Sample.wrote (summary 3 0 ++ Sample.ending)
    let host := Sample.host (summary 3 0 ++ Sample.ending)
    State.ofWord ((Sample.listing "latest").argString? "state") = .ok .latest ∧
      (acting .latest (listed (Sample.listing "latest")), .ok o) ∈ ran (run.dialogue host {}) ∧
      o.status.isSuccess = true ∧
      o.combined.toList = [] ++ ((summary 3 0).toList ++ Sample.ending.toList) ∧
      ∃ r, (run.runWith host {}).1 = .ok r ∧ r.changed = true := by
  intro run o host
  have word : State.ofWord ((Sample.listing "latest").argString? "state") = .ok .latest := by
    decide +kernel
  have acted : (acting .latest (listed (Sample.listing "latest")), .ok o) ∈
      ran (run.dialogue host {}) := by
    decide +kernel
  have reads : o.combined.toList = [] ++ ((summary 3 0).toList ++ Sample.ending.toList) := by
    decide +kernel
  obtain ⟨r, found, -, changed⟩ := latest_changed_iff word acted rfl (by simp) reads
  have plain : ¬ nothingDone.toList <:+: Sample.ending.toList := by
    rw [← Text.hasPart_iff_isInfix]
    decide +kernel
  exact ⟨word, acted, rfl, reads, r, found, changed.2 ⟨.inl (by decide), by decide, plain⟩⟩

/-- Ten packages were upgraded, and the task is told to have changed nothing. -/
theorem ten_upgrades_unchanged :
    let run := (run (Sample.listing "latest")).outcome
    let o := Sample.wrote (summary 10 0 ++ Sample.ending)
    let host := Sample.host (summary 10 0 ++ Sample.ending)
    o.combined = "10 upgraded, 0 newly installed, 0 to remove and 0 not upgraded.\n" ∧
      o.status.isSuccess = true ∧
      (acting .latest ["curl", "git", "curl"], .ok o) ∈ ran (run.dialogue host {}) ∧
      (run.runWith host {}).1.map TaskResult.changed = .ok false := by
  refine ⟨?_, ?_, ?_, ?_⟩ <;> decide +kernel

end Package

end Fleet
