/-
# Good runs

A run of the controller is good exactly if no result was a failure, and that is so exactly if every
agent was reached and started, ended well and wrote nothing but results that are none
(`run_good_iff`). A run does not compare what an agent wrote with what its job asks for: it is good
as well where an agent ends well and writes nothing at all.
-/

import Fleet.Host.Machine
import Fleet.Proofs.Deploy.Quiet
import Fleet.Proofs.Deploy.Receipt
import Fleet.Proofs.Report.Interleaving

namespace Fleet.Controller

open Deployment (Receipt WentWell stamp)
open Host (Action Attempt Exchange silent)
open Host.Attempt (Yields)
open Schedule (Logged Pool own start)

variable {color : Report.Color} {verbose answer : Bool} {o : Options} {c : Config}
variable {jobs : Dict String Job} {results : List TaskResult}
variable {σ : Type} {h : Action.Handler σ} {s s' : σ}

theorem stats_expected {host : String} {job : Job} (entry : (host, job) ∈ jobs.entries) :
    (expected jobs).stats host = { total := job.resultCount } := by
  unfold Report.Summary.stats expected Report.Summary.start
  rw [Dict.get?_mapValues, Dict.get?_mapValues, Dict.get?_eq_some_iff.2 entry]
  rfl

theorem runWith_conclude (s : σ) : ((conclude color verbose jobs results).runWith h s).1 =
    (Report.digest? color ((expected jobs).recordAll results)).isNone := by
  unfold conclude
  cases Report.digest? color ((expected jobs).recordAll results) <;> cases verbose <;> rfl

theorem good_iff (s : σ) : ((conclude color verbose jobs results).runWith h s).1 = true ↔
    ∀ r ∈ results, r.isFailed = false := by
  rw [runWith_conclude, Option.isNone_iff_eq_none, Report.digest?_eq_none_iff,
    Report.Summary.failures_recordAll]
  show results.filter (·.isFailed) = [] ↔ _
  rw [List.filter_eq_nil_iff]
  simp only [Bool.not_eq_true]

/-- What a good answer tells of every host: the work there went well, exactly what the agent wrote
came back, and the counters of the host count that, whatever its job asks for. -/
def Tells (d : Deployment) (jobs : Dict String Job) (dialogue : Nat → List Exchange)
    (results : List TaskResult) (answer : Bool) : Prop :=
  answer = true ↔ ∀ k host job, jobs.entries[k]? = some (host, job) →
    ∃ rs, WentWell d host job (dialogue k) rs ∧
      (results.filter fun r => r.host = host) = rs.map (stamp host) ∧
      (((expected jobs).recordAll results).stats host).total = job.resultCount ∧
      (((expected jobs).recordAll results).stats host).done = rs.length

theorem tells_of_receipt {d : Deployment} {dialogue : Nat → List Exchange}
    (receipt : Receipt d jobs dialogue results) (s : σ) :
    Tells d jobs dialogue results ((conclude color verbose jobs results).runWith h s).1 := by
  unfold Tells
  rw [good_iff, receipt.well_iff]
  constructor
  · intro well k host job entry
    obtain ⟨rs, went, mine⟩ := well k host job entry
    have start := stats_expected (List.mem_of_getElem? entry)
    refine ⟨rs, went, mine, ?_, ?_⟩
    · rw [Report.Summary.stats_recordAll, Report.HostStats.total_foldl, start]
    · rw [Report.Summary.stats_recordAll, Report.HostStats.done_foldl, start, mine,
        List.length_map, Nat.zero_add]
  · intro tells k host job entry
    obtain ⟨rs, went, mine, -, -⟩ := tells k host job entry
    exact ⟨rs, went, mine⟩

/-- The results that a launch brings in on a host. -/
def received (h : Action.Handler σ) (d : Deployment) (jobs : Dict String Job) (s : σ) :
    List TaskResult :=
  ((d.launch jobs).collect.runWith h s).1.2

/-- What a run that is no rehearsal comes to once its jobs are known. -/
theorem yields_run (wet : o.dryRun = false) (ran : Yields h (run color o) s answer s') :
    ∃ c s₁ book s₂, Yields h (Config.load o.configPath o.playbook) s c s₁ ∧
      Yields h (loadPlaybook o (o.override c)) s₁ book s₂ ∧
      ((select o.limit (book.assemble o.jobVars)).isEmpty = false →
        (deploy color o (o.override c) (select o.limit (book.assemble o.jobVars))).runWith h s₂ =
          (answer, s')) := by
  obtain ⟨c, s₁, loaded, ran⟩ := Attempt.yields_bind.1 ran
  obtain ⟨book, s₂, compiled, ran⟩ := Attempt.yields_bind.1 ran
  refine ⟨c, s₁, book, s₂, Attempt.yields_mapError.1 loaded, compiled, ?_⟩
  intro some
  dsimp only at ran
  rw [some, wet] at ran
  exact Attempt.yields_lift.1 ran

/-- A run over some hosts is good exactly if the work on each of them went well; and then exactly
that came back of each which its agent wrote. So it is where the hosts are worked on one after the
other, and so it is under every schedule. -/
theorem run_good_iff (color : Report.Color) (o : Options) (σ : Type) (h : Action.Handler σ) :
    (o.dryRun = false → ∀ s answer s', Yields h (run color o) s answer s' →
      ∃ c s₁ book s₂, Yields h (Config.load o.configPath o.playbook) s c s₁ ∧
        Yields h (loadPlaybook o (o.override c)) s₁ book s₂ ∧
        ∀ jobs, jobs = select o.limit (book.assemble o.jobVars) → jobs.isEmpty = false →
          ∃ dialogue : Nat → List Exchange,
            ((deployment o (o.override c)).launch jobs).collect.dialogue h s₂ =
              (List.range jobs.size).flatMap (fun k => silent (dialogue k)) ∧
            Tells (deployment o (o.override c)) jobs dialogue
              (received h (deployment o (o.override c)) jobs s₂) answer) ∧
    ∀ c jobs world log p verbose s, Logged h (start (deployment o c) jobs world) log p →
      p.isOver = true →
      Tells (deployment o c) jobs (own · log) p.received
        ((conclude color verbose jobs p.received).runWith h s).1 := by
  constructor
  · intro wet s answer s' ran
    obtain ⟨c, s₁, book, s₂, loaded, compiled, deployed⟩ := yields_run wet ran
    refine ⟨c, s₁, book, s₂, loaded, compiled, ?_⟩
    rintro jobs rfl some
    have launched := Action.after_dialogue h
      ((deployment o (o.override c)).launch (select o.limit (book.assemble o.jobVars))).collect s₂
    obtain ⟨dialogue, own, receipt⟩ :=
      Deployment.receipt_of_after_launch (isQuiet_deployment o _) launched
    refine ⟨dialogue, own, ?_⟩
    have answered := congrArg Prod.fst (deployed some)
    rw [deploy, Action.runWith_bind] at answered
    change ((conclude color (o.verbose > 0) _ _).runWith h _).1 = answer at answered
    rw [← answered]
    exact tells_of_receipt receipt _
  · intro c jobs world log p verbose s logged finished
    have receipt := Deployment.receipt_of_logged (isQuiet_deployment o c) logged finished
    exact tells_of_receipt receipt s

/-! ## A run that is good and brings in nothing -/

namespace Silent

/-- A machine that holds the playbook of one task for one host. -/
def machine : Host.Machine where
  files :=
    let made := do
      let files ← (default : Host.FileSystem).create ⟨0, 0, 0o022⟩ [] "/site.yml"
      files.append [] "/site.yml" "- hosts: web\n  tasks:\n    - debug:\n".toUTF8.toList
    made.toOption.getD default

/-- The programs of the controller, `ssh` among them, end well at once and write nothing. -/
def handler : Action.Handler Host.Machine :=
  Host.Machine.handler { programs := fun _ _ files => (.ok { status := .code 0 }, files) }

def options : Options := { playbook := "/site.yml", noInstall := true }

/-- The playbook as it is read from its file. -/
def book : Playbook :=
  { plays := [{ hosts := ["web"], tasks := [{ runner := "debug" }] }] }

/-- The machine once the playbook is read. -/
def ready : Host.Machine :=
  ((loadPlaybook options (options.override {})).outcome.runWith handler
    ((Config.load options.configPath options.playbook).outcome.runWith handler machine).2).2

theorem yields_config : Yields handler (Config.load options.configPath options.playbook) machine {}
    ((Config.load options.configPath options.playbook).outcome.runWith handler machine).2 :=
  Prod.ext (by decide +kernel) rfl

theorem yields_book : Yields handler (loadPlaybook options (options.override {}))
    ((Config.load options.configPath options.playbook).outcome.runWith handler machine).2
    book ready :=
  Prod.ext (by decide +kernel) rfl

theorem yields_run : Yields handler (run false options) machine true
    ((run false options).outcome.runWith handler machine).2 :=
  Prod.ext (by decide +kernel) rfl

end Silent

theorem run_good_iff_sample : ∃ dialogue : Nat → List Exchange,
    Tells (deployment Silent.options (Silent.options.override {})) (Silent.book.assemble ∅) dialogue
      (received Silent.handler (deployment Silent.options (Silent.options.override {}))
        (Silent.book.assemble ∅) Silent.ready) true := by
  obtain ⟨c, s₁, book, s₂, loaded, compiled, jobs⟩ :=
    (run_good_iff false Silent.options Host.Machine Silent.handler).1 rfl _ _ _ Silent.yields_run
  obtain ⟨rfl, rfl⟩ := Silent.yields_config.unique loaded
  obtain ⟨rfl, rfl⟩ := Silent.yields_book.unique compiled
  obtain ⟨dialogue, -, tells⟩ :=
    jobs (Silent.book.assemble ∅) (by decide +kernel) (by decide +kernel)
  exact ⟨dialogue, tells⟩

/-- A run is good although nothing came back for the one task of its one host. -/
theorem run_good_without_results : Silent.options.dryRun = false ∧
    ∃ m m', Yields Silent.handler (run false Silent.options) Silent.machine true m ∧
      Yields Silent.handler (Config.load none "/site.yml") Silent.machine {} m' ∧
      Yields Silent.handler (loadPlaybook Silent.options (Silent.options.override {})) m'
        Silent.book Silent.ready ∧
      ((expected (Silent.book.assemble ∅)).recordAll
        (received Silent.handler (deployment Silent.options (Silent.options.override {}))
          (Silent.book.assemble ∅) Silent.ready)).stats "web" = { total := 1, done := 0 } :=
  ⟨rfl, _, _, Silent.yields_run, Silent.yields_config, Silent.yields_book, by decide +kernel⟩

end Fleet.Controller
