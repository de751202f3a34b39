/-
# Actions

An action asks for operations one after the other, each question depending on the replies so far,
and ends with a value. It says nothing of what the host does: a handler does, which answers each
operation from a state and changes the state. `runWith_bind` says that actions in a row run in a
row.
-/

import Fleet.Host.Operation

namespace Fleet.Host

/-- A dialogue with the host that ends with a value. -/
inductive Action (α : Type) where
  | done (a : α)
  | ask (op : Operation) (next : op.Reply → Action α)

namespace Action

variable {α β γ σ : Type}

/-- One action, and then another that depends on its value. -/
def bind : Action α → (α → Action β) → Action β
  | done a, f => f a
  | ask op next, f => ask op fun reply => (next reply).bind f

instance : Monad Action where
  pure := done
  bind := bind

@[simp] theorem pure_eq (a : α) : (pure a : Action α) = done a := rfl
@[simp] theorem done_bind (a : α) (f : α → Action β) : (done a >>= f) = f a := rfl
@[simp] theorem ask_bind (op : Operation) (next : op.Reply → Action α) (f : α → Action β) :
    (ask op next >>= f) = ask op fun reply => next reply >>= f := rfl

theorem bind_done (x : Action α) : x >>= done = x := by
  induction x with
  | done a => rfl
  | ask op next ih => rw [ask_bind]; congr 1; funext reply; exact ih reply

theorem bind_bind (x : Action α) (f : α → Action β) (g : β → Action γ) :
    x >>= f >>= g = x >>= fun a => f a >>= g := by
  induction x with
  | done a => rfl
  | ask op next ih => simp only [ask_bind]; congr 1; funext reply; exact ih reply

instance : LawfulMonad Action :=
  LawfulMonad.mk' Action (fun x => bind_done x) (fun _ _ => rfl) bind_bind

/-- Ask for one operation. -/
def perform (op : Operation) : Action op.Reply := ask op done

/-- How a host answers operations, and how its state changes with them. -/
abbrev Handler (σ : Type) := (op : Operation) → σ → op.Reply × σ

/-- The value that an action ends with on a host, and the state that it leaves. -/
def runWith (h : Handler σ) : Action α → σ → α × σ
  | done a, s => (a, s)
  | ask op next, s => (next (h op s).1).runWith h (h op s).2

/-- Every operation that an action asks for on a host, with the state behind it. -/
def trace (h : Handler σ) : Action α → σ → List (Operation × σ)
  | done _, _ => []
  | ask op next, s => (op, (h op s).2) :: (next (h op s).1).trace h (h op s).2

@[simp] theorem runWith_done (h : Handler σ) (a : α) (s : σ) : (done a).runWith h s = (a, s) := rfl

theorem runWith_bind (h : Handler σ) (x : Action α) (f : α → Action β) (s : σ) :
    (x >>= f).runWith h s = (f (x.runWith h s).1).runWith h (x.runWith h s).2 := by
  induction x generalizing s with
  | done a => rfl
  | ask op next ih => simp only [ask_bind, runWith, ih]

theorem trace_bind (h : Handler σ) (x : Action α) (f : α → Action β) (s : σ) :
    (x >>= f).trace h s =
      x.trace h s ++ (f (x.runWith h s).1).trace h (x.runWith h s).2 := by
  induction x generalizing s with
  | done a => rfl
  | ask op next ih => simp only [ask_bind, trace, runWith, ih, List.cons_append]

/-- The action with its reports kept instead of handed on. -/
def collect : Action α → Action (α × List TaskResult)
  | done a => done (a, [])
  | ask (.report r) next => do
    let (a, more) ← (next (.ok ())).collect
    return (a, r :: more)
  | ask op next => ask op fun reply => (next reply).collect

end Action

/-- An action that may fail. -/
abbrev Attempt (ε α : Type) := ExceptT ε Action α

namespace Attempt

variable {ε ε' α : Type}

/-- Ask for an operation that may be refused. -/
def ask (x : Action (Except HostError α)) : Attempt HostError α := ExceptT.mk x

/-- The attempt with another error in place of its own. -/
def mapError (f : ε → ε') (x : Attempt ε α) : Attempt ε' α := ExceptT.mk do
  match ← x.run with
  | .ok a => return .ok a
  | .error e => return .error (f e)

/-- The attempt as an action that ends with its error or its value. -/
def outcome (x : Attempt ε α) : Action (Except ε α) := x.run

/-- The attempt, and whatever comes of it one more action, whose value does not count. -/
def andThen {β : Type} (x : Attempt ε α) (after : Action β) : Attempt ε α := ExceptT.mk do
  let found ← x.run
  let _ ← after
  return found

end Attempt

def info (path : String) : Attempt HostError FileInfo := .ask (.perform (.info path))
def read (path : String) : Attempt HostError Bytes := .ask (.perform (.read path))
def readStart (path : String) (count : Nat) : Attempt HostError Bytes :=
  .ask (.perform (.readStart path count))
def list (path : String) : Attempt HostError (List String) := .ask (.perform (.list path))
def create (path : String) : Attempt HostError Unit := .ask (.perform (.create path))
def openEnd (path : String) : Attempt HostError Unit := .ask (.perform (.openEnd path))
def append (path : String) (data : Bytes) : Attempt HostError Unit :=
  .ask (.perform (.append path data))
def flush (path : String) : Attempt HostError Unit := .ask (.perform (.flush path))
def sync (path : String) : Attempt HostError Unit := .ask (.perform (.sync path))
def setMode (path : String) (mode : Nat) : Attempt HostError Unit :=
  .ask (.perform (.setMode path mode))
def setOwner (path : String) (uid gid : Option Nat) : Attempt HostError Unit :=
  .ask (.perform (.setOwner path uid gid))
def rename (source target : String) : Attempt HostError Unit :=
  .ask (.perform (.rename source target))
def remove (path : String) : Attempt HostError Unit := .ask (.perform (.remove path))
def makeDirectory (path : String) : Attempt HostError Unit := .ask (.perform (.makeDirectory path))
def run (command : Command) : Attempt HostError ProgramOutput := .ask (.perform (.run command))
def report (result : TaskResult) : Attempt HostError Unit := .ask (.perform (.report result))
def temporary : Attempt HostError String := .ask (.perform .temporary)
def accounts : Action Accounts := .perform .accounts
def userId : Action Nat := .perform .userId
def home? : Action (Option String) := .perform .home
def platform : Action Platform := .perform .platform
def programFile? : Action (Option String) := .perform .programFile
def fresh : Action String := .perform .fresh
def clock : Action Nat := .perform .clock
def print (text : String) : Action Unit := .perform (.print text)
def printError (text : String) : Action Unit := .perform (.printError text)
def download (url : String) : Action (Except String Bytes) := .perform (.download url)

/-- Whether a path leads anywhere. -/
def exists? (path : String) : Action Bool := return (← (info path).outcome).isOk

/-- Whether a path leads to a directory. -/
def isDirectory? (path : String) : Action Bool := do
  match ← (info path).outcome with
  | .ok i => return i.isDirectory
  | .error _ => return false

/-- Whether a path leads to a file. -/
def isFile? (path : String) : Action Bool := do
  match ← (info path).outcome with
  | .ok i => return i.kind = .file
  | .error _ => return false

/-- The text of a file. -/
def readText (path : String) : Attempt HostError String := do
  match Text.Utf8.text? (← read path) with
  | some text => return text
  | none => throw .notText

end Fleet.Host
