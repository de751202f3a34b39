/-
# Host specs and where they stand in a call of ssh

A spec is read back from its text exactly if each part of it stands where a reader looks for it
(`HostSpec.parse?_text_iff`), and a reader finds no other specs.

In a call of `ssh` all that is written before the host is options and their values. So the host is
the first argument that is neither, unless it is written like an option itself
(`Ssh.host_first_iff`). Nothing keeps a spec from being written so.
-/

import Fleet.Deploy.Ssh
import Fleet.Proofs.Decimal.Format
import Fleet.Proofs.Text.Split

namespace Fleet

namespace HostSpec

open Text (trim isBlank)

variable {cs rest host : List Char} {user : Option String} {port : Option Nat} {spec : String}
variable {h : HostSpec}

/-- A spec whose parts stand where they are looked for. -/
structure IsPlain (h : HostSpec) : Prop where
  /-- The first `@` ends the user, and the text does not start with a blank. -/
  user : match h.user with
    | none => '@' ∉ h.host.toList
    | some user => user ≠ "" ∧ '@' ∉ user.toList ∧ user.toList.head?.any isBlank = false
  written : h.host ≠ ""
  solid : h.host.toList.any isBlank = false
  /-- The last `:` starts the port. -/
  portless : h.port = none → ':' ∉ h.host.toList
  bounded : ∀ port, h.port = some port → port ≤ greatestPort

/-! ## Reading -/

theorem splitUser?_eq_some_iff : splitUser? cs = some (user, rest) ↔
    match user with
    | none => '@' ∉ cs ∧ rest = cs
    | some user => user ≠ "" ∧ '@' ∉ user.toList ∧ cs = user.toList ++ '@' :: rest := by
  unfold splitUser?
  cases cut : Text.cutFirst? '@' cs with
  | none =>
      have outside := Text.cutFirst?_eq_none_iff.1 cut
      cases user with
      | none => simp [outside, eq_comm]
      | some user =>
          refine iff_of_false nofun ?_
          rintro ⟨-, -, rfl⟩
          exact outside (List.mem_append_right _ List.mem_cons_self)
  | some parts =>
      obtain ⟨outside, whole⟩ := Text.cutFirst?_eq_some_iff.1 cut
      dsimp only
      cases user with
      | none =>
          refine iff_of_false ?_ fun ⟨uncut, _⟩ => uncut (by simp [whole])
          split <;> simp
      | some user =>
          constructor
          · intro split_
            split at split_
            · cases split_
            · next some_ =>
                cases split_
                simp_all
          · rintro ⟨some_, single, same⟩
            have parts_ := cut.symm.trans (same ▸ Text.cutFirst?_append single rest)
            cases parts_
            simp [some_]

theorem splitPort?_eq_some_iff : splitPort? cs = some (host, port) ↔
    match port with
    | none => ':' ∉ cs ∧ host = cs
    | some n => ∃ digits, ':' ∉ digits ∧ cs = host ++ ':' :: digits ∧
        Text.readBounded? greatestPort digits = some n := by
  unfold splitPort?
  cases cut : Text.cutLast? ':' cs with
  | none =>
      have outside := Text.cutLast?_eq_none_iff.1 cut
      cases port with
      | none => simp [outside, eq_comm]
      | some n =>
          refine iff_of_false nofun ?_
          rintro ⟨digits, -, rfl, -⟩
          exact outside (List.mem_append_right _ List.mem_cons_self)
  | some parts =>
      obtain ⟨outside, whole⟩ := Text.cutLast?_eq_some_iff.1 cut
      dsimp only
      rw [Option.map_eq_some_iff]
      cases port with
      | none =>
          refine iff_of_false (by simp) fun ⟨uncut, _⟩ => uncut (by simp [whole])
      | some n =>
          constructor
          · rintro ⟨n', read, same⟩
            cases same
            exact ⟨parts.2, outside, whole, read⟩
          · rintro ⟨digits, single, same, read⟩
            have parts_ := cut.symm.trans (Text.cutLast?_eq_some_iff.2 ⟨single, same⟩)
            cases parts_
            exact ⟨n, read, rfl⟩

theorem parse?_eq_some_iff : parse? spec = some h ↔ ∃ rest,
    splitUser? (trim spec.toList) = some (h.user, rest) ∧
    splitPort? rest = some (h.host.toList, h.port) ∧ h.host ≠ "" ∧
    h.host.toList.any isBlank = false := by
  unfold parse?
  refine Option.bind_eq_some_iff.trans ?_
  constructor
  · rintro ⟨⟨user, rest⟩, first, read⟩
    obtain ⟨⟨host, port⟩, second, built⟩ := Option.bind_eq_some_iff.1 read
    dsimp only at built
    split at built
    · cases built
    · next usable =>
        cases built
        rw [Bool.or_eq_true, not_or] at usable
        refine ⟨rest, first, ?_, ?_, ?_⟩
        · rwa [String.toList_ofList]
        · intro nothing
          rw [← String.toList_inj, String.toList_ofList] at nothing
          exact usable.1 (by rw [nothing]; rfl)
        · rw [String.toList_ofList]
          exact Bool.eq_false_iff.2 usable.2
  · rintro ⟨rest, first, second, written, solid⟩
    refine ⟨(h.user, rest), first, Option.bind_eq_some_iff.2 ⟨_, second, ?_⟩⟩
    have some_ : h.host.toList.isEmpty = false := by
      rw [List.isEmpty_eq_false_iff]
      exact fun nothing => written (String.toList_eq_nil_iff.1 nothing)
    dsimp only
    rw [some_, solid, String.ofList_toList]
    rfl

/-- Whatever is read is a spec whose parts stand where they are looked for. -/
theorem isPlain_of_parse? (read : parse? spec = some h) : h.IsPlain := by
  obtain ⟨rest, first, second, written, solid⟩ := parse?_eq_some_iff.1 read
  have named := splitUser?_eq_some_iff.1 first
  have behind := splitPort?_eq_some_iff.1 second
  have part : ∀ c ∈ h.host.toList, c ∈ rest := by
    cases port : h.port with
    | none =>
        rw [port] at behind
        exact fun c member => behind.2 ▸ member
    | some n =>
        rw [port] at behind
        obtain ⟨digits, -, rfl, -⟩ := behind
        exact fun c member => List.mem_append_left _ member
  refine ⟨?_, written, solid, fun port => ?_, fun n port => ?_⟩
  · cases user : h.user with
    | none =>
        rw [user] at named
        exact fun member => named.1 (named.2 ▸ part _ member)
    | some name =>
        rw [user] at named
        obtain ⟨some_, single, whole⟩ := named
        refine ⟨some_, single, ?_⟩
        have start := Text.head?_trim spec.toList
        rw [whole] at start
        cases name_ : name.toList with
        | nil => rfl
        | cons c more =>
            rw [name_] at start
            exact start
  · rw [port] at behind
    exact behind.2 ▸ behind.1
  · rw [port] at behind
    obtain ⟨digits, -, -, within⟩ := behind
    exact of_decide_eq_true (Option.filter_eq_some_iff.1 within).2

/-! ## Writing -/

/-- What a text has before the host. -/
def userText : Option String → List Char
  | none => []
  | some user => user.toList ++ ['@']

/-- What a text has behind the host. -/
def portText : Option Nat → List Char
  | none => []
  | some port => ':' :: Nat.toDigits 10 port

theorem not_mem_portText (port : Option Nat) : '@' ∉ portText port := by
  cases port with
  | none => exact List.not_mem_nil
  | some n => exact List.not_mem_cons_of_ne_of_not_mem (by decide) (Decimal.notMem_toDigits rfl n)

theorem toList_text : h.text.toList = userText h.user ++ (h.host.toList ++ portText h.port) := by
  unfold text userText portText
  rw [String.toList_append, String.toList_append, List.append_assoc]
  congr 1
  · cases h.user with
    | none => rfl
    | some user => exact String.toList_append
  · congr 1
    cases h.port with
    | none => rfl
    | some port =>
        dsimp only
        rw [String.toList_append, Decimal.toList_toString]
        rfl

/-- The text of such a spec has no blank at its ends. -/
theorem IsPlain.trim_text (plain : h.IsPlain) : trim h.text.toList = h.text.toList := by
  have some_ : h.host.toList ≠ [] := fun nothing =>
    plain.written (String.toList_eq_nil_iff.1 nothing)
  have solid : ∀ c ∈ h.host.toList, isBlank c = false := by simpa using plain.solid
  rw [Text.trim_eq_self_iff, toList_text]
  constructor
  · cases user : h.user with
    | none =>
        obtain ⟨c, more, host⟩ := List.exists_cons_of_ne_nil some_
        rw [host] at solid ⊢
        exact solid c List.mem_cons_self
    | some name =>
        have start := plain.user
        rw [user] at start
        obtain ⟨named, -, dark⟩ := start
        obtain ⟨c, more, name_⟩ :=
          List.exists_cons_of_ne_nil fun nothing => named (String.toList_eq_nil_iff.1 nothing)
        rw [name_] at dark
        rw [userText, name_]
        exact dark
  · rw [List.getLast?_append_of_ne_nil _ (List.append_ne_nil_of_left_ne_nil some_ _)]
    cases h.port with
    | none =>
        rw [portText, List.append_nil, List.getLast?_eq_some_getLast some_]
        exact solid _ (List.getLast_mem some_)
    | some port =>
        have digits : Nat.toDigits 10 port ≠ [] := Nat.toDigits_ne_nil
        rw [portText, List.getLast?_append_of_ne_nil _ (List.cons_ne_nil _ _),
          List.getLast?_cons_of_ne_nil digits, List.getLast?_eq_some_getLast digits]
        exact Decimal.isBlank_of_isAsciiDigit
          (Decimal.isAsciiDigit_toDigits port _ (List.getLast_mem digits))

theorem IsPlain.parse?_text (plain : h.IsPlain) : parse? h.text = some h := by
  rw [parse?_eq_some_iff, plain.trim_text, toList_text]
  refine ⟨h.host.toList ++ portText h.port, splitUser?_eq_some_iff.2 ?_,
    splitPort?_eq_some_iff.2 ?_, plain.written, plain.solid⟩
  · have named := plain.user
    cases user : h.user with
    | none =>
        rw [user] at named
        have outside : '@' ∉ h.host.toList ++ portText h.port := by
          intro member
          rcases List.mem_append.1 member with host | port
          · exact named host
          · exact not_mem_portText h.port port
        exact ⟨outside, rfl⟩
    | some name =>
        rw [user] at named
        exact ⟨named.1, named.2.1, by simp [userText]⟩
  · cases port : h.port with
    | none => exact ⟨by simpa [portText] using plain.portless port, by simp [portText]⟩
    | some n =>
        exact ⟨_, Decimal.notMem_toDigits rfl n, rfl,
          Decimal.readBounded?_toDigits (plain.bounded n port)⟩

/-- A spec is read back from its text exactly if it is plain, and so is every spec that was read. -/
theorem parse?_text_iff (h : HostSpec) :
    (parse? h.text = some h ↔ h.IsPlain) ∧
      ∀ spec, parse? spec = some h → parse? h.text = some h :=
  ⟨⟨isPlain_of_parse?, IsPlain.parse?_text⟩,
    fun _ read => (isPlain_of_parse? read).parse?_text⟩

end HostSpec

namespace Ssh

open HostSpec (parse?)

/-! ## Options and operands

A command line as `ssh` reads it: letters behind a dash are options, some letters take a value, and
the first argument that is none of this is the host. -/

/-- Whether an argument is read as options, or as their end, where options may stand. -/
def isOption (arg : String) : Bool :=
  match arg.toList with
  | '-' :: _ :: _ => true
  | _ => false

/-- Whether the value of an option is the next argument: the first letter that takes a value is the
last one. -/
def leavesValue (takesValue : Char → Bool) : List Char → Bool
  | [] => false
  | c :: letters => if takesValue c then letters.isEmpty else leavesValue takesValue letters

/-- The arguments from the first one on that is neither an option nor the value of one. `due` tells
whether a value is to come. -/
def operandsFrom (takesValue : Char → Bool) (due : Bool) : List String → List String
  | [] => []
  | arg :: args =>
    if due then operandsFrom takesValue false args
    else if !isOption arg then arg :: args
    else if arg = "--" then args
    else operandsFrom takesValue (leavesValue takesValue (arg.toList.drop 1)) args

/-- The arguments from the host on. -/
def operands (takesValue : Char → Bool) (args : List String) : List String :=
  operandsFrom takesValue false args

variable {takesValue : Char → Bool} {s : SshConfig} {h : HostSpec} {arg value command : String}
variable {args : List String} {due : Bool} {c : Char}

theorem operands_of_isOption_eq_false (plain : isOption arg = false) :
    operands takesValue (arg :: args) = arg :: args := by
  simp [operands, operandsFrom, plain]

/-- An option of one letter takes the next argument along if the letter takes a value. -/
theorem operands_value (takes : takesValue c = true) (written : arg.toList = ['-', c])
    (other : c ≠ '-') : operands takesValue (arg :: value :: args) = operands takesValue args := by
  have option : isOption arg = true := by
    rw [isOption, written]
    rfl
  have long : arg ≠ "--" := by
    rintro rfl
    exact other (List.cons.inj (List.cons.inj written).2).1.symm
  simp [operands, operandsFrom, option, long, written, leavesValue, takes]

/-- Behind an argument that is an option there is no host but what stood behind it. -/
theorem operandsFrom_suffix : operandsFrom takesValue due args <:+ args := by
  induction args generalizing due with
  | nil => exact List.suffix_refl []
  | cons arg args ih =>
      rw [operandsFrom]
      split_ifs
      · exact ih.trans (List.suffix_cons arg args)
      · exact List.suffix_refl _
      · exact List.suffix_cons arg args
      · exact ih.trans (List.suffix_cons arg args)

theorem operands_suffix_of_isOption (option : isOption arg = true) :
    operands takesValue (arg :: args) <:+ args := by
  rw [operands, operandsFrom, if_neg Bool.false_ne_true, option, Bool.not_true,
    if_neg Bool.false_ne_true]
  split_ifs
  · exact List.suffix_refl args
  · exact operandsFrom_suffix

section Letters

variable (o : takesValue 'o' = true)

include o

theorem operands_commonOptions :
    operands takesValue (commonOptions s ++ args) = operands takesValue args := by
  have given (options : List String) : operands takesValue
      ((options.flatMap fun option => ["-o", option]) ++ args) = operands takesValue args := by
    induction options with
    | nil => rfl
    | cons option options ih =>
        rw [List.flatMap_cons, List.append_assoc]
        exact (operands_value o rfl (by decide)).trans ih
  rw [commonOptions, List.append_assoc]
  exact (operands_value o rfl (by decide)).trans
    ((operands_value o rfl (by decide)).trans (given s.options))

variable (p : takesValue 'p' = true) (l : takesValue 'l' = true)

include p l

/-- All that is written before the host is options and their values. -/
theorem operands_commandArgs : operands takesValue (commandArgs s h command) =
    operands takesValue [h.host, command] := by
  rw [commandArgs, List.append_assoc, List.append_assoc, operands_commonOptions o]
  cases h.port with
  | none =>
      cases h.user with
      | none => rfl
      | some user => exact operands_value l rfl (by decide)
  | some port =>
      refine (operands_value p rfl (by decide)).trans ?_
      cases h.user with
      | none => rfl
      | some user => exact operands_value l rfl (by decide)

end Letters

theorem operands_host_iff : operands takesValue [h.host, command] = [h.host, command] ↔
    isOption h.host = false := by
  constructor
  · intro first
    refine Bool.eq_false_iff.2 fun option => ?_
    have short : (operands takesValue [h.host, command]).length ≤ [command].length :=
      (operands_suffix_of_isOption option).length_le
    rw [first] at short
    exact absurd short (Nat.not_succ_le_self 1)
  · exact operands_of_isOption_eq_false

/-- A host that was read is the first argument that is no option and no value of one, with the
command behind it, exactly if the host is not an option itself. Otherwise there is no host, and the
command is taken for it at the most. Any text without a blank, an `@` and a `:` is read as a host,
options among them. -/
theorem host_first_iff (o : takesValue 'o' = true) (p : takesValue 'p' = true)
    (l : takesValue 'l' = true) :
    (∀ spec h, parse? spec = some h → ∀ s command,
      (operands takesValue (commandArgs s h command) = [h.host, command] ↔
        isOption h.host = false) ∧
      (isOption h.host = true →
        operands takesValue (commandArgs s h command) <:+ [command])) ∧
    ∀ arg, isOption arg = true → '@' ∉ arg.toList → ':' ∉ arg.toList →
      arg.toList.any Text.isBlank = false → parse? arg = some ⟨none, arg, none⟩ := by
  refine ⟨fun spec h _ s command => ?_, fun arg option single portless solid => ?_⟩
  · rw [operands_commandArgs o p l]
    exact ⟨operands_host_iff, operands_suffix_of_isOption⟩
  · have written : arg ≠ "" := by
      rintro rfl
      cases option
    have plain : HostSpec.IsPlain ⟨none, arg, none⟩ :=
      ⟨single, written, solid, fun _ => portless, nofun⟩
    have text : HostSpec.text ⟨none, arg, none⟩ = arg := by
      simp [HostSpec.text]
    have read := plain.parse?_text
    rwa [text] at read

namespace Sample

/-- Whether a letter of `ssh` takes a value. -/
def letters (c : Char) : Bool := "BDEFIJLOPQRSWbceilmopw".toList.contains c

/-- A host and a user on a port. -/
def database : HostSpec := ⟨some "deploy", "db", some 2222⟩

/-- What starts a program on this side in place of a connection. -/
def proxy : HostSpec := ⟨none, "-oProxyCommand=touch$IFS/tmp/taken", none⟩

end Sample

theorem host_first_sample : Sample.letters 'o' = true ∧ Sample.letters 'p' = true ∧
    Sample.letters 'l' = true ∧ parse? "deploy@db:2222" = some Sample.database ∧
    operands Sample.letters (commandArgs {} Sample.database "true") = ["db", "true"] := by
  have read : parse? "deploy@db:2222" = some Sample.database := by decide +kernel
  have o : Sample.letters 'o' = true := by decide
  have p : Sample.letters 'p' = true := by decide
  have l : Sample.letters 'l' = true := by decide
  exact ⟨o, p, l, read, ((host_first_iff o p l).1 _ _ read {} "true").1.2 (by decide +kernel)⟩

/-- A host is accepted that `ssh` reads as an option, and the command is taken for the host. -/
theorem proxy_taken_as_host :
    parse? "-oProxyCommand=touch$IFS/tmp/taken" = some Sample.proxy ∧
    commandArgs {} Sample.proxy "true" = ["-o", "BatchMode=yes", "-o", "ConnectTimeout=10",
      "-oProxyCommand=touch$IFS/tmp/taken", "true"] ∧
    operands Sample.letters (commandArgs {} Sample.proxy "true") = ["true"] := by
  refine ⟨by decide +kernel, by decide +kernel, by decide +kernel⟩

end Ssh

end Fleet
