/-
# Agents on arbitrary streams

An agent goes by the lines of a stream that are not blank: a header on the first of them, and then
the plays up to the first line that yields none. Nothing behind that line is looked at, and the call
fails exactly where there is one. A stream of a job that breaks off inside a record has such a line
at its end (`Job.IsCut.lineRecords_eq`).
-/

import Fleet.Proofs.Job.Execute
import Fleet.Proofs.Json.Reader
import Fleet.Proofs.Wire.Frame

namespace Fleet

open Host (Action)
open Host.Attempt

/-! ## Streams that break off -/

namespace Wire

/-- What the lines of a stream yield to an agent. -/
def lineFrames (bytes : Bytes) : List (Option Frame) := lineRecords Frame.ofJson? bytes

/-- The frame that an agent takes back from the record of a frame. -/
def Frame.readBack? (f : Frame) : Option Frame := readLine? ofJson? f.toJson.printChars

/-- The records of some frames, one behind the other. -/
def Frame.encodeAll (l : List Frame) : Bytes := l.flatMap fun f => encodeRecord f.toJson

theorem Frame.exists_obj (f : Frame) : ∃ members, f.toJson = .obj members := by
  cases f with
  | header vars => exact ⟨_, rfl⟩
  | play p => exact ⟨_, rfl⟩

end Wire

namespace Job

/-- A stream of a job that breaks off inside the record of a frame, before its closing brace. The
records of the frames before it are whole. -/
structure IsCut (j : Job) (whole : List Wire.Frame) (f : Wire.Frame) (bytes : Bytes) : Prop where
  frames : whole ++ [f] <+: j.frames
  part : bytes <+: j.encode .none
  begun : (Wire.Frame.encodeAll whole).length < bytes.length
  short : bytes.length <
    (Wire.Frame.encodeAll whole).length + (Text.Utf8.encode f.toJson.printChars).length

variable {j : Job} {whole : List Wire.Frame} {f : Wire.Frame} {bytes : Bytes}

theorem IsCut.exists_eq (broken : j.IsCut whole f bytes) : ∃ cut left,
    bytes = Wire.Frame.encodeAll whole ++ cut ∧ cut ≠ [] ∧ left ≠ [] ∧
      Text.Utf8.encode f.toJson.printChars = cut ++ left := by
  obtain ⟨after, frames⟩ := broken.frames
  have stream : j.encode .none = Wire.Frame.encodeAll whole ++
      (Text.Utf8.encode f.toJson.printChars ++
        ([Wire.lineFeed] ++ Wire.Frame.encodeAll after)) := by
    show j.stream = _
    rw [Job.stream, ← frames]
    simp only [Wire.Frame.encodeAll, List.flatMap_append, List.flatMap_singleton,
      Wire.encodeRecord_eq, List.append_assoc]
  -- What is left behind the whole records is too short to reach past the record that is cut.
  have part := broken.part
  rw [stream] at part
  obtain ⟨cut, rfl⟩ := List.prefix_of_prefix_length_le (List.prefix_append _ _) part
    broken.begun.le
  have begun := broken.begun
  have short := broken.short
  rw [List.length_append] at begun short
  obtain ⟨left, split⟩ := List.prefix_of_prefix_length_le ((List.prefix_append_right_inj _).1 part)
    (List.prefix_append _ _) (by omega)
  refine ⟨cut, left, rfl, List.ne_nil_of_length_pos (by omega), ?_, split.symm⟩
  rw [← split, List.length_append] at short
  exact List.ne_nil_of_length_pos (by omega)

/-- The whole records are read, and the last line yields no frame. -/
theorem IsCut.lineFrames_eq (broken : j.IsCut whole f bytes) :
    Wire.lineFrames bytes = whole.map Wire.Frame.readBack? ++ [none] := by
  obtain ⟨cut, left, rfl, begun, short, split⟩ := broken.exists_eq
  obtain ⟨members, object⟩ := f.exists_obj
  rw [object] at split
  exact Wire.lineRecords_cut (fun g _ => g.exists_obj) split begun short

/-- The first frames of a job are its header and plays. -/
theorem eq_of_prefix_frames {kept : List Wire.Frame} (first : kept <+: j.frames) : kept = [] ∨
    kept = .header j.vars :: (j.plays.take (kept.length - 1)).map .play := by
  obtain ⟨after, frames⟩ := first
  cases kept with
  | nil => exact .inl rfl
  | cons g rest =>
      rw [List.cons_append] at frames
      obtain ⟨rfl, plays⟩ := List.cons.inj frames
      refine .inr (congrArg _ ?_)
      rw [List.length_cons, Nat.add_sub_cancel, List.map_take, ← plays, List.take_left]

/-- An agent takes back the records of an exact job that do not nest too deep, and no others. -/
theorem IsExact.readBack?_eq (each : j.IsExact) (member : f ∈ j.frames) :
    f.readBack? = if f.toJson.depth < Json.depthLimit then some f else none := by
  rw [Wire.Frame.readBack?, Wire.readLine?,
    Json.read?_printChars_eq (each.isIntegral_frames f member)]
  split
  · exact each.ofJson?_frames f member
  · rfl

/-- Records that do not nest too deep are taken back up to the first that does. -/
theorem exists_map_readBack?_eq {l : List Wire.Frame}
    (back : ∀ g ∈ l, g.readBack? = if g.toJson.depth < Json.depthLimit then some g else none) :
    ∃ rest, l.map Wire.Frame.readBack? ++ [none] =
      (l.takeWhile fun g => g.toJson.depth < Json.depthLimit).map some ++ none :: rest := by
  induction l with
  | nil => exact ⟨[], rfl⟩
  | cons g l ih =>
      obtain ⟨first, later⟩ := List.forall_mem_cons.1 back
      rw [List.map_cons, first, List.takeWhile_cons]
      by_cases within : g.toJson.depth < Json.depthLimit
      · obtain ⟨rest, split⟩ := ih later
        refine ⟨rest, ?_⟩
        rw [if_pos within, if_pos (decide_eq_true within), List.cons_append, split, List.map_cons,
          List.cons_append]
      · refine ⟨l.map Wire.Frame.readBack? ++ [none], ?_⟩
        rw [if_neg within, if_neg (by simpa using within)]
        rfl

end Job

/-! ## Runs -/

namespace Dispatcher

variable {σ : Type} {d : Dispatcher} {h : Action.Handler σ} {s : σ} {vars : Vars}
variable {items : List (Except Wire.RecordError Wire.Frame)} {rest : List (Option Wire.Frame)}
variable {bytes : Bytes}

theorem runFrames_refused
    (other : ∀ vars, (items.map Except.toOption).head? ≠ some (some (.header vars))) :
    ∃ e, d.runFrames items = throw e := by
  cases items with
  | nil => exact ⟨.missingHeader, rfl⟩
  | cons first rest =>
      cases first with
      | error e => exact ⟨.record e, rfl⟩
      | ok f =>
          cases f with
          | header vars => exact absurd rfl (other vars)
          | play p => exact ⟨.unexpectedFrame "header" "play", rfl⟩

theorem exists_runFrames_header
    (frames : items.map Except.toOption = some (.header vars) :: rest) :
    ∃ later, later.map Except.toOption = rest ∧ d.runFrames items = d.runPlays vars {} later := by
  obtain ⟨first, later, rfl, header, behind⟩ := List.map_eq_cons_iff.1 frames
  cases first with
  | error e => cases header
  | ok f =>
      obtain rfl := Option.some.inj header
      exact ⟨later, behind, rfl⟩

theorem eq_map_of_plays (plays : ∀ f ∈ items.map Except.toOption, ∃ p, f = some (.play p)) :
    ∃ ps : List Play, items = ps.map fun p => .ok (.play p) := by
  induction items with
  | nil => exact ⟨[], rfl⟩
  | cons first rest ih =>
      obtain ⟨⟨p, play⟩, later⟩ := List.forall_mem_cons.1 plays
      obtain ⟨ps, rfl⟩ := ih later
      cases first with
      | error e => cases play
      | ok f =>
          obtain rfl := Option.some.inj play
          exact ⟨p :: ps, rfl⟩

/-- A run over frames fails exactly where one of them is no play. -/
theorem runPlays_error_iff (takes : ∀ r s, (h (.report r) s).1 = .ok ()) :
    (∃ e, ((d.runPlays vars {} items).outcome.runWith h s).1 = .error e) ↔
      ∃ f ∈ items.map Except.toOption, ∀ p, f ≠ some (.play p) := by
  constructor
  · rintro ⟨e, failed⟩
    by_contra none_
    have plays : ∀ f ∈ items.map Except.toOption, ∃ p, f = some (.play p) := by
      intro f member
      by_contra other
      exact none_ ⟨f, member, fun p play => other ⟨p, play⟩⟩
    obtain ⟨ps, rfl⟩ := eq_map_of_plays plays
    obtain ⟨s', ended⟩ := yields_runPlays (d := d) (s := s) vars {} ps takes
    rw [ended] at failed
    cases failed
  · rintro ⟨f, member, other⟩
    obtain ⟨frame, listed, rfl⟩ := List.mem_map.1 member
    have stop : ∀ p, frame ≠ .ok (.play p) := fun p play => other p (congrArg Except.toOption play)
    cases ended : (d.runPlays vars {} items).outcome.runWith h s with
    | mk result s' =>
        cases result with
        | error e => exact ⟨e, rfl⟩
        | ok sum => exact absurd ended (not_yields_runPlays takes listed stop)

/-- Without a header nothing is asked for. -/
theorem runStream_refused
    (other : ∀ vars, (Wire.lineFrames bytes).head? ≠ some (some (.header vars))) :
    (d.runStream .none bytes).outcome.trace h s = [] ∧
      ∃ e, ((d.runStream .none bytes).outcome.runWith h s).1 = .error e := by
  rw [Wire.lineFrames, ← Wire.map_toOption_records] at other
  obtain ⟨e, run⟩ := runFrames_refused (d := d) other
  have thrown : d.runStream .none bytes = throw e := run
  rw [thrown]
  exact ⟨rfl, e, rfl⟩

/-- Behind a header the plays are run up to the first line that is none. -/
theorem runStream_header (takes : ∀ r s, (h (.report r) s).1 = .ok ())
    (frames : Wire.lineFrames bytes = some (.header vars) :: rest) :
    (d.runStream .none bytes).outcome.trace h s =
        (d.jobVisits h vars 0 s (Wire.leadingPlays rest)).flatten.flatMap Visit.trace ∧
      ((∃ e, ((d.runStream .none bytes).outcome.runWith h s).1 = .error e) ↔
        ∃ f ∈ rest, ∀ p, f ≠ some (.play p)) := by
  rw [Wire.lineFrames, ← Wire.map_toOption_records] at frames
  obtain ⟨later, rfl, same⟩ := exists_runFrames_header (d := d) frames
  have run : d.runStream .none bytes = d.runPlays vars {} later := same
  rw [run]
  exact ⟨trace_runPlays_of_frames takes, runPlays_error_iff takes⟩

/-- Where the first frames of a job are taken back and no more, the plays among them are run. -/
theorem trace_runStream_of_prefix {j : Job} {kept : List Wire.Frame}
    (takes : ∀ r s, (h (.report r) s).1 = .ok ()) (first : kept <+: j.frames)
    (frames : Wire.lineFrames bytes = kept.map some ++ none :: rest) :
    (d.runStream .none bytes).outcome.trace h s =
      (d.jobVisits h j.vars 0 s (j.plays.take (kept.length - 1))).flatten.flatMap Visit.trace := by
  rcases Job.eq_of_prefix_frames first with rfl | plays
  · refine (runStream_refused fun vars => ?_).1
    rw [frames]
    nofun
  · generalize j.plays.take (kept.length - 1) = ps at plays ⊢
    rw [plays, List.map_cons, List.map_map, List.cons_append] at frames
    have leading : Wire.leadingPlays (ps.map (some ∘ Wire.Frame.play) ++ none :: rest) =
        ps ++ [] := Wire.leadingPlays_append
    rw [(runStream_header takes frames).1, leading, List.append_nil]

section Cut

variable {j : Job} {whole : List Wire.Frame} {f : Wire.Frame}
variable (takes : ∀ r s, (h (.report r) s).1 = .ok ()) (broken : j.IsCut whole f bytes)

include takes broken

theorem runStream_cut_fails :
    ∃ e, ((d.runStream .none bytes).outcome.runWith h s).1 = .error e := by
  have frames := broken.lineFrames_eq
  by_cases header : ∃ vars, (Wire.lineFrames bytes).head? = some (some (.header vars))
  · obtain ⟨vars, first⟩ := header
    obtain ⟨rest, split⟩ := List.head?_eq_some_iff.1 first
    have last : none ∈ rest := by
      have listed : none ∈ Wire.lineFrames bytes := by
        rw [frames]
        exact List.mem_append_right _ List.mem_cons_self
      rw [split] at listed
      exact (List.mem_cons.1 listed).resolve_left nofun
    exact (runStream_header takes split).2.2 ⟨none, last, nofun⟩
  · exact (runStream_refused fun vars first => header ⟨vars, first⟩).2

end Cut

/-- An agent on an arbitrary stream runs nothing unless the first line that is not blank is a
header. Behind a header it runs the plays up to the first line that is none, one after the other
under their numbers, and fails exactly where there is such a line. On a stream of a job that breaks
off inside a record it fails, and it runs the whole plays where it takes back the whole records. From
an exact job it takes back the records that do not nest too deep, so there it runs the whole plays
before the first that does. -/
theorem stream_protocol (takes : ∀ r s, (h (.report r) s).1 = .ok ()) :
    (∀ bytes s, (∀ vars, (Wire.lineFrames bytes).head? ≠ some (some (.header vars))) →
      let run := (d.runStream .none bytes).outcome
      run.trace h s = [] ∧ ∃ e, (run.runWith h s).1 = .error e) ∧
    (∀ bytes s vars rest, Wire.lineFrames bytes = some (.header vars) :: rest →
      let run := (d.runStream .none bytes).outcome
      let plays := Wire.leadingPlays rest
      let logs := d.jobVisits h vars 0 s plays
      run.trace h s = logs.flatten.flatMap Visit.trace ∧
      logs.length = plays.length ∧
      (∀ k p vs, plays[k]? = some p → logs[k]? = some vs →
        IsPlayLog k p vs ∧ ∃ s', vs = d.playVisits h k p vars s') ∧
      ((∃ e, (run.runWith h s).1 = .error e) ↔ ∃ f ∈ rest, ∀ p, f ≠ some (.play p))) ∧
    (∀ (j : Job) whole f bytes s, j.IsCut whole f bytes →
      let run := (d.runStream .none bytes).outcome
      Wire.lineFrames bytes = whole.map Wire.Frame.readBack? ++ [none] ∧
      (∃ e, (run.runWith h s).1 = .error e) ∧
      ((∀ g ∈ whole, g.readBack? = some g) →
        let plays := j.plays.take (whole.length - 1)
        run.trace h s = (d.jobVisits h j.vars 0 s plays).flatten.flatMap Visit.trace) ∧
      (j.IsExact →
        let kept := whole.takeWhile fun g => g.toJson.depth < Json.depthLimit
        let plays := j.plays.take (kept.length - 1)
        run.trace h s = (d.jobVisits h j.vars 0 s plays).flatten.flatMap Visit.trace)) ∧
    ∀ j : Job, j.IsExact → ∀ f ∈ j.frames,
      f.readBack? = if f.toJson.depth < Json.depthLimit then some f else none := by
  refine ⟨fun bytes s other => runStream_refused other, fun bytes s vars rest frames => ?_,
    fun j whole f bytes s broken => ?_, fun j each f member => each.readBack?_eq member⟩
  · obtain ⟨trace, fails⟩ := runStream_header (d := d) (s := s) takes frames
    refine ⟨trace, length_jobVisits, fun k p vs asked done => ?_, fails⟩
    obtain ⟨s', rfl⟩ := getElem?_jobVisits asked done
    rw [Nat.zero_add]
    exact ⟨isPlayLog_playVisits takes, s', rfl⟩
  · have frames := broken.lineFrames_eq
    have first : whole <+: j.frames := (List.prefix_append _ _).trans broken.frames
    refine ⟨frames, runStream_cut_fails takes broken, fun back => ?_, fun each => ?_⟩
    · rw [List.map_congr_left back] at frames
      exact trace_runStream_of_prefix takes first frames
    · obtain ⟨rest, split⟩ := Job.exists_map_readBack?_eq fun g member =>
        each.readBack?_eq (first.subset member)
      rw [split] at frames
      exact trace_runStream_of_prefix takes ((List.takeWhile_prefix _).trans first) frames

/-! ## Two jobs that break off

Both streams end before the last brace. In the first job the whole play is read and breaks off at
its own failure. In the second one it holds a value that nests deeper than an agent reads.
-/

namespace Sample

def job : Job where
  plays := [failing, play]

/-- `count` arrays around null. -/
def nested : (count : Nat) → Json
  | 0 => .null
  | count + 1 => .arr [nested count]

def deep : Play where
  vars := Dict.ofList [("nested", nested 126)]
  tasks := [{ runner := "look" }]

def deepJob : Job where
  plays := [deep, {}]

/-- The stream of a job without its last brace. -/
def torn (j : Job) : Bytes := (j.encode .none).dropLast.dropLast

theorem torn_isPrefix (j : Job) : torn j <+: j.encode .none :=
  (List.dropLast_prefix _).trans (List.dropLast_prefix _)

theorem job_isCut : job.IsCut [.header ∅, .play failing] (.play play) (torn job) where
  frames := ⟨[], rfl⟩
  part := torn_isPrefix job
  begun := by decide +kernel
  short := by decide +kernel

theorem deepJob_isCut : deepJob.IsCut [.header ∅, .play deep] (.play {}) (torn deepJob) where
  frames := ⟨[], rfl⟩
  part := torn_isPrefix deepJob
  begun := by decide +kernel
  short := by decide +kernel

end Sample

theorem stream_protocol_sample : (∀ r s, (Sample.host (.report r) s).1 = .ok ()) ∧
    Sample.job.IsCut [.header ∅, .play Sample.failing] (.play Sample.play)
      (Sample.torn Sample.job) ∧
    let run := (Sample.dispatcher.runStream .none (Sample.torn Sample.job)).outcome
    (∃ e, (run.runWith Sample.host default).1 = .error e) ∧
    run.trace Sample.host default =
      (Sample.dispatcher.jobVisits Sample.host ∅ 0 default [Sample.failing]).flatten.flatMap
        Visit.trace := by
  have takes : ∀ r s, (Sample.host (.report r) s).1 = .ok () := fun _ _ => rfl
  obtain ⟨-, -, cut, -⟩ := stream_protocol (d := Sample.dispatcher) takes
  have each : Sample.job.IsExact := by decide +kernel
  have kept : ([.header ∅, .play Sample.failing].takeWhile fun g : Wire.Frame =>
      g.toJson.depth < Json.depthLimit).length = 2 := by decide +kernel
  obtain ⟨-, fails, -, runs⟩ := cut Sample.job _ _ _ default Sample.job_isCut
  have run := runs each
  simp only [kept] at run
  exact ⟨takes, Sample.job_isCut, fails, run⟩

/-- A whole play that nests too deep is not run. -/
theorem deep_play_not_run : ¬ ∀ (j : Job) whole f bytes, j.IsCut whole f bytes →
    (Sample.dispatcher.runStream .none bytes).outcome.trace Sample.host default =
      (Sample.dispatcher.jobVisits Sample.host j.vars 0 default
        (j.plays.take (whole.length - 1))).flatten.flatMap Visit.trace := by
  intro all
  have header : (Wire.Frame.header ∅).readBack? = some (.header ∅) := by decide +kernel
  have refused : (Wire.Frame.play Sample.deep).readBack? = none := by decide +kernel
  have frames := Sample.deepJob_isCut.lineFrames_eq
  rw [List.map_cons, List.map_singleton, header, refused] at frames
  have nothing := (runStream_header (d := Sample.dispatcher) (h := Sample.host) (s := default)
    (fun _ _ => rfl) frames).1
  have run := (all _ _ _ _ Sample.deepJob_isCut).symm.trans nothing
  have asked : ((Sample.dispatcher.jobVisits Sample.host Sample.deepJob.vars 0 default
      (Sample.deepJob.plays.take 1)).flatten.flatMap Visit.trace).length ≠ 0 := by decide +kernel
  exact asked (congrArg List.length run)

end Dispatcher

end Fleet
