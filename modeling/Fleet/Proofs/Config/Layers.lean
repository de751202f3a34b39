/-
# Where each setting comes from

A setting is what a flag of the command line gives, else what the document of the configuration file
writes, else the usual value; `IsEffective` says so of all settings at once, for usual values of
one's choice. Reading a document, seeing it from the directory of its file and laying the options
over it each keep it (`isEffective_of_read?`, `IsEffective.rebase`, `IsEffective.override`). Seeing
a configuration from a directory moves the usual values with it, so where a file is used the usual
directory of agents is below that of the file (`load_layers`).
-/

import Fleet.Controller
import Fleet.Proofs.Host.Change

namespace Fleet.Config

open Host (Machine)
open Host.Attempt (Yields)
open Host.Machine (handler)
open Yaml (Tree)

variable {α β : Type} {c usual : Config} {directory : List Char} {doc : Option Tree}
variable {o : Options} {playbook path text : String} {env : Host.Environment} {m : Machine}

/-! ## What a document writes -/

/-- What a mapping binds to a name. -/
def member? (name : String) : Tree → Option Tree
  | .mapping _ entries => entries.findSome? fun
    | (.scalar _ _ found, value) => if found = name then some value else none
    | _ => none
  | _ => none

/-- What a document writes for the setting that some names lead to. -/
def written? (doc : Option Tree) (names : List String) : Option Tree :=
  names.foldl (fun found name => found.bind (member? name)) doc

/-- The document of a text, unless it is blank. -/
def document? (text : List Char) : Option Tree :=
  if (Text.trim text).isEmpty then none else (Tree.read? text).join

/-- A setting is what its flag gives, else what is read from what is written, else the usual
value. -/
def IsLayered (flag : Option α) (written : Option Tree) (read : Tree → Option α) (usual value : α) :
    Prop :=
  match flag, written with
  | some given, _ => value = given
  | none, some tree => read tree = some value
  | none, none => value = usual

/-- A flag that turns a setting off. -/
def off (given : Bool) : Option Bool := if given then some false else none

/-- Each setting of a configuration comes from the options, else from a document whose local paths
are seen from a directory, else from the usual configuration. -/
structure IsEffective (usual : Config) (directory : List Char) (doc : Option Tree) (o : Options)
    (c : Config) : Prop where
  dir : IsLayered o.agentDir (written? doc ["agent", "dir"])
    (fun tree => (text? tree).map (seenFrom directory)) usual.agent.dir c.agent.dir
  remotePath : IsLayered none (written? doc ["agent", "remote_path"]) text? usual.agent.remotePath
    c.agent.remotePath
  install : IsLayered (off o.noInstall) (written? doc ["agent", "install"]) flag?
    usual.agent.install c.agent.install
  asRoot : IsLayered (off o.noSudo) (written? doc ["agent", "sudo"]) flag? usual.agent.asRoot
    c.agent.asRoot
  compression : IsLayered o.compression (written? doc ["compression"]) compression?
    usual.compression c.compression
  connectTimeout : IsLayered none (written? doc ["ssh", "connect_timeout"]) number?
    usual.ssh.connectTimeout c.ssh.connectTimeout
  options : IsLayered none (written? doc ["ssh", "options"]) texts? usual.ssh.options c.ssh.options
  binary : IsLayered none (written? doc ["ssh", "binary"]) text? usual.ssh.binary c.ssh.binary
  scpBinary : IsLayered none (written? doc ["ssh", "scp_binary"]) text? usual.ssh.scpBinary
    c.ssh.scpBinary
  ageIdentity : IsLayered none (written? doc ["vault", "age_identity"])
    (fun tree => (textOrNull? tree).map (·.map (seenFrom directory))) usual.vault.ageIdentity
    c.vault.ageIdentity
  passwordFile : IsLayered none (written? doc ["vault", "password_file"])
    (fun tree => (textOrNull? tree).map (·.map (seenFrom directory))) usual.vault.passwordFile
    c.vault.passwordFile

/-! ## Reading a document -/

theorem lookup_of_bindings {tag : Option Yaml.Tag} {entries : List (Tree × Tree)}
    {given : List (String × Tree)} (name : String)
    (each : (entries.mapM fun
      | (.scalar _ _ name, value) => some (name, value)
      | _ => none) = some given) :
    given.lookup name = member? name (.mapping tag entries) := by
  rw [member?]
  induction entries generalizing given with
  | nil =>
      obtain rfl := Option.some.inj each
      rfl
  | cons entry entries ih =>
      rw [List.mapM_cons, Option.bind_eq_bind, Option.bind_eq_some_iff] at each
      obtain ⟨first, own, later⟩ := each
      rw [Option.bind_eq_bind, Option.bind_eq_some_iff] at later
      obtain ⟨rest, each, collected⟩ := later
      obtain rfl := Option.some.inj collected
      obtain ⟨key, value⟩ := entry
      cases key with
      | scalar tag style bound =>
          obtain rfl := Option.some.inj own
          rw [List.lookup_cons, List.findSome?_cons, ih each]
          by_cases same : bound = name
          · simp [same]
          · simp [same, beq_false_of_ne (Ne.symm same)]
      | sequence _ _ => cases own
      | mapping _ _ => cases own

/-- The settings that a mapping gives are what it writes under their names. -/
theorem lookup_of_settings? {names : List String} {tree : Tree} {given : List (String × Tree)}
    (read : settings? names tree = some given) (name : String) :
    given.lookup name = member? name tree := by
  cases tree with
  | scalar tag style text =>
      rw [settings?] at read
      split at read
      · obtain rfl := Option.some.inj read
        rfl
      · cases read
  | sequence tag items => cases read
  | mapping tag entries =>
      rw [settings?, Option.bind_eq_bind, Option.bind_eq_some_iff] at read
      obtain ⟨found, each, checked⟩ := read
      split at checked
      · obtain rfl := Option.some.inj checked
        exact lookup_of_bindings name each
      · cases checked

/-- What is read of a mapping is layered by what the mapping writes. -/
theorem isLayered_of_setting {names : List String} {tree : Tree} {given : List (String × Tree)}
    {name : String} {otherwise value : α} {read : Tree → Option α}
    (settings : settings? names tree = some given)
    (found : setting given name otherwise read = some value) :
    IsLayered none (member? name tree) read otherwise value := by
  rw [setting, lookup_of_settings? settings] at found
  cases written : member? name tree with
  | none =>
      rw [written] at found
      exact (Option.some.inj found).symm
  | some below =>
      rw [written] at found
      exact found

/-- A setting of a section that may be left out as a whole is layered as well. -/
theorem IsLayered.section {part : Option Tree} {name : String} {readAll : Tree → Option β}
    {read : Tree → Option α} {base record : β} (field : β → α)
    (whole : IsLayered none part readAll base record)
    (each : ∀ tree, readAll tree = some record →
      IsLayered none (member? name tree) read (field base) (field record)) :
    IsLayered none (part.bind (member? name)) read (field base) (field record) := by
  cases part with
  | none => exact congrArg field whole
  | some tree => exact each tree whole

theorem IsLayered.map {written : Option Tree} {read : Tree → Option α} {usual value : α} (f : α → β)
    (layered : IsLayered none written read usual value) :
    IsLayered none written (fun tree => (read tree).map f) (f usual) (f value) := by
  cases written with
  | none => exact congrArg f layered
  | some tree => exact congrArg (Option.map f) layered

/-- A flag stands above what is written. -/
theorem IsLayered.flag {written : Option Tree} {read : Tree → Option α} {usual value : α}
    (given : Option α) (layered : IsLayered none written read usual value) :
    IsLayered given written read usual (given.getD value) := by
  cases given with
  | none => exact layered
  | some v => exact rfl

theorem and_not_eq_getD_off (value given : Bool) : (value && !given) = (off given).getD value := by
  cases value <;> cases given <;> rfl

theorem seenFrom_nil (path : String) : seenFrom [] path = path := by
  rw [seenFrom, Path.append, List.isEmpty_nil, Bool.or_true, if_pos rfl, String.ofList_toList]

theorem isLayered_of_agent? {tree : Tree} {a : AgentConfig} (read : agent? tree = some a) :
    IsLayered none (member? "dir" tree) text? ({} : AgentConfig).dir a.dir ∧
    IsLayered none (member? "remote_path" tree) text? ({} : AgentConfig).remotePath a.remotePath ∧
    IsLayered none (member? "install" tree) flag? ({} : AgentConfig).install a.install ∧
    IsLayered none (member? "sudo" tree) flag? ({} : AgentConfig).asRoot a.asRoot := by
  simp only [agent?, Option.bind_eq_bind, Option.bind_eq_some_iff, Option.some.injEq] at read
  obtain ⟨given, settings, dir, dirRead, remotePath, remoteRead, install, installRead, asRoot,
    rootRead, rfl⟩ := read
  exact ⟨isLayered_of_setting settings dirRead, isLayered_of_setting settings remoteRead,
    isLayered_of_setting settings installRead, isLayered_of_setting settings rootRead⟩

theorem isLayered_of_ssh? {tree : Tree} {a : SshConfig} (read : ssh? tree = some a) :
    IsLayered none (member? "connect_timeout" tree) number? ({} : SshConfig).connectTimeout
      a.connectTimeout ∧
    IsLayered none (member? "options" tree) texts? ({} : SshConfig).options a.options ∧
    IsLayered none (member? "binary" tree) text? ({} : SshConfig).binary a.binary ∧
    IsLayered none (member? "scp_binary" tree) text? ({} : SshConfig).scpBinary a.scpBinary := by
  simp only [ssh?, Option.bind_eq_bind, Option.bind_eq_some_iff, Option.some.injEq] at read
  obtain ⟨given, settings, timeout, timeoutRead, options, optionsRead, binary, binaryRead, scp,
    scpRead, rfl⟩ := read
  exact ⟨isLayered_of_setting settings timeoutRead, isLayered_of_setting settings optionsRead,
    isLayered_of_setting settings binaryRead, isLayered_of_setting settings scpRead⟩

theorem isLayered_of_vault? {tree : Tree} {a : VaultConfig} (read : vault? tree = some a) :
    IsLayered none (member? "age_identity" tree) textOrNull? ({} : VaultConfig).ageIdentity
      a.ageIdentity ∧
    IsLayered none (member? "password_file" tree) textOrNull? ({} : VaultConfig).passwordFile
      a.passwordFile := by
  simp only [vault?, Option.bind_eq_bind, Option.bind_eq_some_iff, Option.some.injEq] at read
  obtain ⟨given, settings, identity, identityRead, password, passwordRead, rfl⟩ := read
  exact ⟨isLayered_of_setting settings identityRead, isLayered_of_setting settings passwordRead⟩

theorem map_seenFrom_nil : (Option.map (seenFrom []) : Option String → Option String) = id := by
  funext path
  cases path with
  | none => rfl
  | some path => exact congrArg some (seenFrom_nil path)

theorem map_text?_seenFrom_nil :
    (fun tree => (text? tree).map (seenFrom [])) = text? := by
  funext tree
  rw [map_seenFrom_nil, id]

theorem map_textOrNull?_seenFrom_nil :
    (fun tree => (textOrNull? tree).map (·.map (seenFrom []))) = textOrNull? := by
  funext tree
  rw [map_seenFrom_nil, Option.map_id_fun, id]

/-- A document that is read gives what it writes, and leaves the rest as it is. -/
theorem isEffective_of_ofTree? {tree : Tree} (read : ofTree? tree = some c) :
    IsEffective {} [] (some tree) { playbook } c := by
  simp only [ofTree?, Option.bind_eq_bind, Option.bind_eq_some_iff, Option.some.injEq] at read
  obtain ⟨given, settings, agent, agentRead, compression, compressionRead, ssh, sshRead, vault,
    vaultRead, rfl⟩ := read
  have agent' := isLayered_of_setting settings agentRead
  have ssh' := isLayered_of_setting settings sshRead
  have vault' := isLayered_of_setting settings vaultRead
  constructor
  · rw [map_text?_seenFrom_nil]
    exact agent'.section (·.dir) fun _ read => (isLayered_of_agent? read).1
  · exact agent'.section (·.remotePath) fun _ read => (isLayered_of_agent? read).2.1
  · exact agent'.section (·.install) fun _ read => (isLayered_of_agent? read).2.2.1
  · exact agent'.section (·.asRoot) fun _ read => (isLayered_of_agent? read).2.2.2
  · exact isLayered_of_setting settings compressionRead
  · exact ssh'.section (·.connectTimeout) fun _ read => (isLayered_of_ssh? read).1
  · exact ssh'.section (·.options) fun _ read => (isLayered_of_ssh? read).2.1
  · exact ssh'.section (·.binary) fun _ read => (isLayered_of_ssh? read).2.2.1
  · exact ssh'.section (·.scpBinary) fun _ read => (isLayered_of_ssh? read).2.2.2
  · rw [map_textOrNull?_seenFrom_nil]
    exact vault'.section (·.ageIdentity) fun _ read => (isLayered_of_vault? read).1
  · rw [map_textOrNull?_seenFrom_nil]
    exact vault'.section (·.passwordFile) fun _ read => (isLayered_of_vault? read).2

theorem isEffective_usual : IsEffective usual directory none { playbook } usual := by
  constructor <;> exact rfl

theorem isEffective_of_read? {text : List Char} (read : read? text = some c) :
    IsEffective {} [] (document? text) { playbook } c := by
  unfold read? at read
  unfold document?
  split at read
  · next blank =>
      rw [if_pos blank, ← Option.some.inj read]
      exact isEffective_usual
  · next written =>
      rw [if_neg written]
      rw [Option.bind_eq_bind, Option.bind_eq_some_iff] at read
      obtain ⟨found, parsed, read⟩ := read
      rw [parsed]
      cases found with
      | none =>
          rw [← Option.some.inj read]
          exact isEffective_usual
      | some tree => exact isEffective_of_ofTree? read

/-! ## Settling a configuration -/

/-- A configuration seen from a directory comes from its document seen from there, and from the
usual configuration seen from there. -/
theorem IsEffective.rebase (effective : IsEffective usual [] doc { playbook } c)
    (directory : List Char) :
    IsEffective (usual.rebase directory) directory doc { playbook } (c.rebase directory) where
  dir := by
    have layered := effective.dir
    rw [map_text?_seenFrom_nil] at layered
    exact layered.map (seenFrom directory)
  remotePath := effective.remotePath
  install := effective.install
  asRoot := effective.asRoot
  compression := effective.compression
  connectTimeout := effective.connectTimeout
  options := effective.options
  binary := effective.binary
  scpBinary := effective.scpBinary
  ageIdentity := by
    have layered := effective.ageIdentity
    rw [map_textOrNull?_seenFrom_nil] at layered
    exact layered.map (Option.map (seenFrom directory))
  passwordFile := by
    have layered := effective.passwordFile
    rw [map_textOrNull?_seenFrom_nil] at layered
    exact layered.map (Option.map (seenFrom directory))

/-- Options stand above what a document writes. -/
theorem IsEffective.override
    (effective : IsEffective usual directory doc { playbook } c) (o : Options) :
    IsEffective usual directory doc o (o.override c) where
  dir := effective.dir.flag o.agentDir
  remotePath := effective.remotePath
  install := by
    rw [Options.override, and_not_eq_getD_off]
    exact effective.install.flag _
  asRoot := by
    change IsLayered _ _ _ _ (c.agent.asRoot && !o.noSudo)
    rw [and_not_eq_getD_off]
    exact effective.asRoot.flag _
  compression := effective.compression.flag o.compression
  connectTimeout := effective.connectTimeout
  options := effective.options
  binary := effective.binary
  scpBinary := effective.scpBinary
  ageIdentity := effective.ageIdentity
  passwordFile := effective.passwordFile

/-- A file of a machine holds a text. -/
def HoldsText (env : Host.Environment) (m : Machine) (path text : String) : Prop :=
  ∃ data, m.files.read env.directory path = .ok data ∧ Text.Utf8.text? data = some text

/-- A path of a machine leads to a file. -/
def IsFile (env : Host.Environment) (m : Machine) (path : String) : Prop :=
  ∃ i, m.files.info env.directory path = .ok i ∧ i.kind = .file

/-- Where the configuration of a run is: the file that is named, else one beside the playbook if
there is one, each with its path and its text. -/
inductive IsSource (env : Host.Environment) (m : Machine) (o : Options) :
    Option (String × String) → Prop
  | named {path text : String} (name : o.configPath = some path)
      (holds : HoldsText env m path text) : IsSource env m o (some (path, text))
  | beside {text : String} (unnamed : o.configPath = none)
      (isFile : IsFile env m (fileBeside o.playbook))
      (holds : HoldsText env m (fileBeside o.playbook) text) :
      IsSource env m o (some (fileBeside o.playbook, text))
  | nowhere (unnamed : o.configPath = none) (noFile : ¬ IsFile env m (fileBeside o.playbook)) :
      IsSource env m o none

/-- The directory that local paths are seen from. -/
def directoryOf : Option (String × String) → List Char
  | none => []
  | some (path, _) => (Path.parentText? path.toList).getD []

/-- The document that is read. -/
def documentOf : Option (String × String) → Option Tree
  | none => none
  | some (_, text) => document? text.toList

theorem yields_readText (holds : HoldsText env m path text) :
    Yields (handler env) (Host.readText path) m text m := by
  obtain ⟨data, read, decoded⟩ := holds
  refine Host.Attempt.yields_bind.2 ⟨data, m, ?_, ?_⟩
  · change (m.files.read env.directory path, m) = _
    rw [read]
  · rw [decoded]
    exact Host.Attempt.yields_pure.2 ⟨rfl, rfl⟩

theorem runWith_isFile? (answer : Bool) (tells : answer = true ↔ IsFile env m path) :
    (Host.isFile? path).runWith (handler env) m = (answer, m) := by
  unfold IsFile at tells
  rw [Host.isFile?, Host.Action.runWith_bind, Machine.runWith_info]
  cases found : m.files.info env.directory path with
  | error e =>
      rw [found] at tells
      have no : answer = false := by simpa using tells
      rw [no]
      rfl
  | ok i =>
      rw [found] at tells
      have kind : decide (i.kind = .file) = answer := by
        refine Bool.eq_iff_iff.2 (decide_eq_true_iff.trans (Iff.trans ?_ tells.symm))
        constructor
        · exact fun same => ⟨i, rfl, same⟩
        · rintro ⟨i', same, kind⟩
          rw [Except.ok.inj same]
          exact kind
      rw [← kind]
      rfl

theorem rebase_nil : c.rebase [] = c := by
  unfold rebase
  rw [map_seenFrom_nil, seenFrom_nil]
  rfl

/-- A file that holds a configuration gives it, seen from the directory of the file. -/
theorem yields_loadFile (holds : HoldsText env m path text) (read : read? text.toList = some c) :
    Yields (handler env) (loadFile path) m
      (c.rebase (directoryOf (some (path, text)))) m := by
  refine Host.Attempt.yields_bind.2 ⟨text, m,
    Host.Attempt.yields_mapError.2 (yields_readText holds), ?_⟩
  refine Host.Attempt.yields_of_except.2 ⟨?_, rfl⟩
  rw [ofFile, read, directoryOf]
  cases Path.parentText? path.toList with
  | none => exact congrArg Except.ok rebase_nil.symm
  | some directory => rfl

theorem exists_loadFile (playbook : String) (holds : HoldsText env m path text)
    (accepted : (read? text.toList).isSome = true) :
    ∃ c, Yields (handler env) (loadFile path) m c m ∧
      IsEffective (({} : Config).rebase (directoryOf (some (path, text))))
        (directoryOf (some (path, text))) (documentOf (some (path, text))) { playbook } c := by
  obtain ⟨c, read⟩ := Option.isSome_iff_exists.1 accepted
  exact ⟨_, yields_loadFile holds read, (isEffective_of_read? read).rebase _⟩

theorem exists_load {source : Option (String × String)} (playbook : String)
    (found : IsSource env m o source)
    (accepted : ∀ f ∈ source, (read? f.2.toList).isSome = true) :
    ∃ c, Yields (handler env) (load o.configPath o.playbook) m c m ∧
      IsEffective (({} : Config).rebase (directoryOf source)) (directoryOf source)
        (documentOf source) { playbook } c := by
  cases found with
  | named name holds =>
      have accepted := accepted _ (Option.mem_some_self _)
      rw [name]
      exact exists_loadFile playbook holds accepted
  | beside unnamed isFile holds =>
      have accepted := accepted _ (Option.mem_some_self _)
      obtain ⟨c, loaded, effective⟩ := exists_loadFile playbook holds accepted
      refine ⟨c, ?_, effective⟩
      rw [unnamed]
      refine Host.Attempt.yields_bind.2 ⟨true, m, ?_, loaded⟩
      exact Host.Attempt.yields_lift.2 (runWith_isFile? true (iff_of_true rfl isFile))
  | nowhere unnamed noFile =>
      refine ⟨{}, ?_, ?_⟩
      · rw [unnamed]
        refine Host.Attempt.yields_bind.2 ⟨false, m, ?_, Host.Attempt.yields_pure.2 ⟨rfl, rfl⟩⟩
        exact Host.Attempt.yields_lift.2
          (runWith_isFile? false (iff_of_false Bool.false_ne_true noFile))
      · rw [directoryOf, rebase_nil]
        exact isEffective_usual

/-- A path that is not absolute is another one where it is seen from a directory. -/
theorem seenFrom_eq_iff (relative : Path.isAbsolute path.toList = false) :
    seenFrom directory path = path ↔ directory = [] := by
  constructor
  · intro same
    by_contra some_
    have length := congrArg (fun s => s.toList.length) same
    rw [seenFrom, Path.append, relative, Bool.false_or, if_neg (by simpa using some_)] at length
    have long := List.length_pos_iff.2 some_
    split at length <;>
      simp only [String.toList_ofList, List.length_append, List.length_cons] at length <;> omega
  · intro empty
    rw [empty, seenFrom_nil]

/-- Each setting comes from the flags of the command line, else from the configuration file, else
from the usual configuration seen from the directory of the file. So the usual directory of agents
holds as it is only where there is no file, or one without a directory. -/
theorem load_layers {source : Option (String × String)} (found : IsSource env m o source)
    (accepted : ∀ f ∈ source, (read? f.2.toList).isSome = true) :
    ∃ c, Yields (handler env) (load o.configPath o.playbook) m c m ∧
      IsEffective (({} : Config).rebase (directoryOf source)) (directoryOf source)
        (documentOf source) o (o.override c) ∧
      (IsEffective {} (directoryOf source) (documentOf source) o (o.override c) ↔
        o.agentDir.isSome = true ∨ (written? (documentOf source) ["agent", "dir"]).isSome = true ∨
          directoryOf source = []) := by
  obtain ⟨c, loaded, effective⟩ := exists_load "" found accepted
  have settled := effective.override o
  refine ⟨c, loaded, settled, ?_⟩
  have onlyDir : IsEffective {} (directoryOf source) (documentOf source) o (o.override c) ↔
      IsLayered o.agentDir (written? (documentOf source) ["agent", "dir"])
        (fun tree => (text? tree).map (seenFrom (directoryOf source))) ({} : Config).agent.dir
        (o.override c).agent.dir :=
    ⟨(·.dir), fun dir => { settled with dir }⟩
  have dir := settled.dir
  rw [onlyDir]
  cases flag : o.agentDir with
  | some given =>
      rw [flag] at dir
      exact iff_of_true dir (.inl rfl)
  | none =>
      rw [flag] at dir
      cases written : written? (documentOf source) ["agent", "dir"] with
      | some tree =>
          rw [written] at dir
          exact iff_of_true dir (.inr (.inl rfl))
      | none =>
          rw [written] at dir
          change (o.override c).agent.dir = seenFrom (directoryOf source) "./agents" at dir
          change (o.override c).agent.dir = "./agents" ↔ _
          rw [dir, seenFrom_eq_iff rfl]
          simp

namespace Sample

/-- The text of a configuration that says nothing of where agents come from. -/
def content : String := "agent:\n  sudo: false\nvault:\n  password_file: keys/vault\n"

/-- A machine with a configuration beside a playbook. -/
def machine : Machine where
  files :=
    let made := do
      let files ← (default : Host.FileSystem).makeDirectory ⟨0, 0, 0o022⟩ [] "/site"
      let files ← files.create ⟨0, 0, 0o022⟩ [] "/site/rustle.yml"
      files.append [] "/site/rustle.yml" (Text.Utf8.encode content.toList)
    made.toOption.getD default

def options : Options := { playbook := "/site/site.yml", compression := some .none }

def source : Option (String × String) := some (fileBeside options.playbook, content)

theorem isSource : IsSource {} machine options source :=
  .beside rfl ⟨⟨.file, 0o644, 0, 0, content.length⟩, by decide +kernel, rfl⟩
    ⟨Text.Utf8.encode content.toList, by decide +kernel, by decide +kernel⟩

theorem accepted : ∀ f ∈ source, (read? f.2.toList).isSome = true := by
  decide +kernel

theorem load_layers_sample : IsSource {} machine options source ∧
    (∀ f ∈ source, (read? f.2.toList).isSome = true) ∧
    ∃ c, Yields (handler {}) (load options.configPath options.playbook) machine c machine ∧
      IsEffective (({} : Config).rebase (directoryOf source)) (directoryOf source)
        (documentOf source) options (options.override c) := by
  obtain ⟨c, loaded, effective, -⟩ := load_layers isSource accepted
  exact ⟨isSource, accepted, c, loaded, effective⟩

/-- No flag and no file says where agents come from, and still the usual directory does not hold. -/
theorem usual_agents_moved : IsSource {} machine options source ∧ options.agentDir = none ∧
    (written? (documentOf source) ["agent", "dir"]).isNone = true ∧
    ∃ c, Yields (handler {}) (load options.configPath options.playbook) machine c machine ∧
      (options.override c).agent.dir = "/site/./agents" ∧
      ¬ IsEffective {} (directoryOf source) (documentOf source) options (options.override c) := by
  have unwritten : (written? (documentOf source) ["agent", "dir"]).isNone = true := by
    decide +kernel
  obtain ⟨c, loaded, effective⟩ := exists_load "" isSource accepted
  have settled := (effective.override options).dir
  rw [Option.isNone_iff_eq_none.1 unwritten] at settled
  have moved : (options.override c).agent.dir = "/site/./agents" :=
    settled.trans (by decide +kernel)
  refine ⟨isSource, rfl, unwritten, c, loaded, moved, fun effective => ?_⟩
  have dir := effective.dir
  rw [Option.isNone_iff_eq_none.1 unwritten] at dir
  exact absurd (moved.symm.trans dir) (by decide)

end Sample

end Fleet.Config
