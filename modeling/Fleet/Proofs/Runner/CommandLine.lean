/-
# Command lines

A command line that a template writes is split again before a program is run, and so is the one that
starts an agent. Quoting is undone by splitting, so a value that is written with `quote` among plain
words reaches the program as one argument, whatever it holds, and the words around it are none the
wiser. The path of an agent is quoted in the same way (`quoted_stays_one_word`).
-/

import Fleet.Deploy.Agent
import Fleet.Proofs.Runner.Package
import Fleet.Proofs.Template.Inert
import Fleet.Proofs.Template.Uniform
import Fleet.Proofs.Text.ShellWord
import Fleet.Runner.Program

namespace Fleet

open Host
open Host.Action (After)
open Template (hasOpening render toText)
open Text.ShellWord (IsPlain Spaced isGap quoted words?)

/-! ## What a command runner runs -/

namespace Runner

variable {t : Task} {log : List Exchange} {found : Except RunnerError TaskResult}
  {program : String} {args : List String} {directory : Option String}

/-- What is there already is looked for and not run. -/
theorem after_alreadyCreated? {answer : Except RunnerError (Option TaskResult)}
    (asked : After (alreadyCreated? t).outcome log (.done answer)) : ran log = [] ∧
      (answer = .ok none ∨ ∃ path, t.argString? "creates" = some path ∧
        answer = .ok (some (.success s!"skipped, {path} exists\n"))) := by
  unfold alreadyCreated? at asked
  split at asked
  · obtain ⟨rfl, rfl⟩ := Attempt.after_pure.1 asked
    exact ⟨rfl, .inl rfl⟩
  · next path given =>
      obtain ⟨l₁, l₂, there, rfl, looked, last⟩ := Attempt.after_lift_bind.1 asked
      obtain ⟨l₃, l₄, info, rfl, first, ended⟩ := Action.after_bind.1 looked
      obtain rfl := Action.after_perform.1 first
      obtain ⟨rfl, -⟩ := Action.after_done.1 ended
      split at last
      · obtain ⟨rfl, rfl⟩ := Attempt.after_pure.1 last
        exact ⟨rfl, .inr ⟨path, given, rfl⟩⟩
      · obtain ⟨rfl, rfl⟩ := Attempt.after_pure.1 last
        exact ⟨rfl, .inl rfl⟩

/-- A program is run once, however it ends. -/
theorem ran_runProgram (went : After (runProgram (program :: args) directory).outcome log
    (.done found)) : ∃ reply, ran log = [({ program, args, directory }, reply)] := by
  rw [runProgram_eq] at went
  rcases Attempt.after_run_bind went with ⟨e, rfl, -⟩ | ⟨o, l, rfl, rest⟩
  · exact ⟨.error e, rfl⟩
  · obtain ⟨rfl, -⟩ := Attempt.after_pure.1 rest
    exact ⟨.ok o, rfl⟩

/-- A command line with some words is run as one program with the further words as its arguments,
unless what it creates is there. -/
theorem ran_runCommand (split_ : words? (positional t) = some (program :: args))
    (went : After (runCommand t).outcome log (.done found)) :
    (∃ path, t.argString? "creates" = some path ∧
      found = .ok (.success s!"skipped, {path} exists\n") ∧ ran log = []) ∨
    ∃ reply, ran log = [({ program, args, directory := t.argString? "chdir" }, reply)] := by
  unfold runCommand at went
  rcases Attempt.after_bind.1 went with ⟨e, -, failed⟩ | ⟨l₁, l₂, answer, rfl, first, last⟩
  · obtain ⟨-, none_ | ⟨path, -, some_⟩⟩ := after_alreadyCreated? failed
    · cases none_
    · cases some_
  · rw [ran_append]
    obtain ⟨nothing, same | ⟨path, given, same⟩⟩ := after_alreadyCreated? first
    · cases same
      rw [nothing, List.nil_append]
      rw [split_] at last
      exact .inr (ran_runProgram last)
    · cases same
      obtain ⟨rfl, rfl⟩ := Attempt.after_pure.1 last
      rw [nothing]
      exact .inl ⟨path, given, rfl, rfl⟩

end Runner

/-! ## What is written -/

namespace Template

open Braces

variable {vars : Vars} {v : Json} {before behind : String}

/-- Among texts in which no braces open, the variable `x` is written as one quoted text. -/
theorem render_quoted (bound : vars.get? "x" = some v) (inert : Inert before.toList)
    (closed : hasOpening behind.toList = false) :
    render vars (before ++ "\x7b\x7b x | quote \x7d\x7d" ++ behind) =
      .ok (before ++ quoted (toText v) ++ behind) := by
  have read : Expression.read Filter.names (Text.trim " x | quote ".toList) =
      .ok ⟨.path [['x']], [⟨"quote", []⟩]⟩ := by decide +kernel
  have stands := stands_x bound
  have quote : Call.IsPlain ⟨"quote", []⟩ := ⟨by decide, nofun⟩
  have plain : Expression.IsPlain ⟨.path [['x']], [] ++ [⟨"quote", []⟩]⟩ :=
    .calls stands.isPlain nofun quote
  have write : (Expression.mk (.path [['x']]) [⟨"quote", []⟩]).write (.ofDict vars) =
      .ok (quoted (toText v)).toList := by
    show ((Expression.mk (.path [['x']]) [⟨"quote", []⟩]).value (.ofDict vars)).map valueText = _
    rw [Expression.value, stands.value_eq]
    rfl
  have whole : (before ++ "\x7b\x7b x | quote \x7d\x7d" ++ behind).toList =
      before.toList ++ (opening ++ (" x | quote ".toList ++ (closing ++ behind.toList))) := by
    rw [String.toList_append, String.toList_append, List.append_assoc]
    rfl
  have rendered := renderChars_between inert closed (by decide +kernel) read plain
    (fun keys => stands.isSome_of_required)
  rw [render, whole, rendered, write]
  simp [Except.map, Except.mapError, ← String.toList_inj]

end Template

/-! ## The command line of an agent -/

namespace AgentSettings

variable (s : AgentSettings)

/-- The options of an agent. -/
def options : List String :=
  "--compression" :: s.compression.name ::
    if s.verbosity = 0 then [] else [String.ofList ('-' :: List.replicate s.verbosity 'v')]

/-- The words that start an agent: its path, behind `sudo` if it runs as the superuser, and its
options. -/
def words : List String := (if s.asRoot then ["sudo"] else []) ++ s.remotePath :: s.options

theorem isPlain_flags (n : Nat) : IsPlain ('-' :: List.replicate n 'v') where
  some_ := List.cons_ne_nil _ _
  all := by
    rw [List.forall_mem_cons]
    constructor
    · decide
    · intro c member
      rw [List.eq_of_mem_replicate member]
      decide
  start := by
    rw [List.head?_cons]
    decide

theorem isPlain_options : ∀ w ∈ s.options.map String.toList, IsPlain w := by
  have option : IsPlain "--compression".toList := by decide
  have name : IsPlain s.compression.name.toList := by
    cases s.compression <;> decide
  rw [List.forall_mem_map, options, List.forall_mem_cons, List.forall_mem_cons]
  refine ⟨option, name, ?_⟩
  split
  · exact nofun
  · rw [List.forall_mem_singleton, String.toList_ofList]
    exact isPlain_flags s.verbosity

theorem command_eq : s.command = (if s.asRoot then "sudo " else "") ++ quoted s.remotePath ++
    String.ofList ((s.options.map String.toList).flatMap (' ' :: ·)) := by
  rw [command, options, String.append_assoc, String.append_assoc, ← String.toList_inj]
  simp only [String.toList_append, String.toList_ofList]
  by_cases quiet : s.verbosity = 0
  · simp [quiet]
  · simp [quiet]

/-- Splitting the command line of an agent gives its words back. -/
theorem words?_command : words? s.command = some s.words := by
  have behind : Spaced (String.ofList ((s.options.map String.toList).flatMap (' ' :: ·))).toList
      (s.options.map String.toList) := by
    rw [String.toList_ofList]
    exact Text.ShellWord.spaced_flatMap s.isPlain_options
  have starts : (String.ofList ((s.options.map String.toList).flatMap
      (' ' :: ·))).toList.head?.all isGap = true := by
    rw [String.toList_ofList]
    exact Text.ShellWord.head?_flatMap_space _
  rw [command_eq, words]
  cases s.asRoot with
  | false =>
      have before : Spaced "".toList (([] : List String).map String.toList) := .nil
      exact Text.ShellWord.words?_around_quoted before rfl behind starts s.remotePath
  | true =>
      have root : IsPlain "sudo".toList := by decide
      have before : Spaced "sudo ".toList (["sudo"].map String.toList) :=
        .word root rfl (.gap rfl .nil)
      exact Text.ShellWord.words?_around_quoted before rfl behind starts s.remotePath

end AgentSettings

/-! ## Quoted texts among words -/

/-- A text that stands beside an expression: plain words between gaps, in which no braces open. -/
structure IsBeside (text : String) (words : List String) : Prop where
  spaced : Spaced text.toList (words.map String.toList)
  closed : hasOpening text.toList = false

theorem IsBeside.inert {text : String} {words : List String} (beside : IsBeside text words)
    (ends : text.toList.getLast?.all isGap = true) : Template.Braces.Inert text.toList where
  closed := beside.closed
  last := by
    intro c last
    have gap : isGap c = true := by
      rw [Option.mem_def.1 last] at ends
      exact ends
    constructor
    · rintro rfl
      cases gap
    · rintro rfl
      cases gap

/-- Splitting undoes quoting. The value of `x` that a template writes with `quote` between plain
words is one argument of the program that is run, and the words beside it are what they are,
whatever the value is. The command line of an agent is split into its words again, whatever its path
is. -/
theorem quoted_stays_one_word :
    (∀ {vars : Vars} {v : Json} {before behind : String} {ws us : List String},
      vars.get? "x" = some v →
      IsBeside before ws → before.toList.getLast?.all isGap = true →
      IsBeside behind us → behind.toList.head?.all isGap = true →
      ∃ line, render vars (before ++ "\x7b\x7b x | quote \x7d\x7d" ++ behind) = .ok line ∧
        words? line = some (ws ++ toText v :: us) ∧
        ∀ t log found, Runner.positional t = line →
          After (Runner.runCommand t).outcome log (.done found) →
          (∃ path, t.argString? "creates" = some path ∧
            found = .ok (.success s!"skipped, {path} exists\n") ∧ ran log = []) ∨
          ∃ c reply, ran log = [(c, reply)] ∧ c.words = ws ++ toText v :: us) ∧
    ∀ s : AgentSettings, words? s.command = some s.words := by
  refine ⟨?_, AgentSettings.words?_command⟩
  intro vars v before behind ws us bound first ends second starts
  have line := Template.render_quoted bound (first.inert ends) second.closed
  have split_ := Text.ShellWord.words?_around_quoted first.spaced ends second.spaced starts
    (toText v)
  refine ⟨_, line, split_, ?_⟩
  rintro t log found same went
  have some_ : ws ++ toText v :: us ≠ [] :=
    List.append_ne_nil_of_right_ne_nil ws (List.cons_ne_nil _ _)
  obtain ⟨program, args, words⟩ := List.exists_cons_of_ne_nil some_
  have given : words? (Runner.positional t) = some (program :: args) := by
    rw [same, split_, words]
  rcases Runner.ran_runCommand given went with skipped | ⟨reply, once⟩
  · exact .inl skipped
  · exact .inr ⟨_, reply, once, words.symm⟩

namespace Sample

/-- A value that would be three words and a comment, and end a quote. -/
def hostile : Vars := .ofList [("x", .str "a'b  \"$c\n#d\\")]

theorem isBeside_echo : IsBeside "echo\t-n " ["echo", "-n"] where
  spaced := by
    have echo : IsPlain "echo".toList := by decide
    have option : IsPlain "-n".toList := by decide
    exact .word echo rfl (.gap rfl (.word option rfl (.gap rfl .nil)))
  closed := by decide

theorem isBeside_end : IsBeside " \x7bend\x7d" ["\x7bend\x7d"] where
  spaced := by
    have word : IsPlain "\x7bend\x7d".toList := by decide
    exact .gap rfl (.word word rfl .nil)
  closed := by decide

/-- A task that runs a command line. -/
def echo (line : String) : Task where
  runner := "command"
  args := .ofList [(positionalArg, .str line)]

end Sample

theorem quoted_stays_one_word_sample : ∃ line t log found,
    render Sample.hostile "echo\t-n \x7b\x7b x | quote \x7d\x7d \x7bend\x7d" = .ok line ∧
    Runner.positional t = line ∧ After (Runner.runCommand t).outcome log (.done found) ∧
    ∃ c reply, ran log = [(c, reply)] ∧
      c.words = ["echo", "-n", "a'b  \"$c\n#d\\", "\x7bend\x7d"] := by
  have bound : Sample.hostile.get? "x" = some (.str "a'b  \"$c\n#d\\") := by decide +kernel
  obtain ⟨line, rendered, -, runs⟩ :=
    quoted_stays_one_word.1 bound Sample.isBeside_echo (by decide) Sample.isBeside_end (by decide)
  have went := Action.after_dialogue (Machine.handler {})
    (Runner.runCommand (Sample.echo line)).outcome default
  refine ⟨line, Sample.echo line, _, _, rendered, rfl, went, ?_⟩
  exact (runs _ _ _ rfl went).resolve_left fun ⟨path, given, _⟩ => nomatch given

end Fleet
