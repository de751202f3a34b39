/-
# Refused operations

Why a host refuses an operation on a file or a program, and what a step on a file reports then.
-/

import Fleet.Host.Mode

namespace Fleet

/-- Why a host refuses an operation. -/
inductive HostError where
  /-- The operating system's number for the cause. -/
  | code (number : Nat)
  /-- A text was expected and the bytes are none. -/
  | notText
  /-- A path with a character that no path may hold. -/
  | nulInName
  /-- A word of a command with a character that no such word may hold. -/
  | nulInCommand
  deriving DecidableEq, Repr, Inhabited

namespace HostError

def notPermitted : HostError := code 1
def notFound : HostError := code 2
def accessDenied : HostError := code 13
def alreadyExists : HostError := code 17
def notDirectory : HostError := code 20
def isDirectory : HostError := code 21
def invalidArgument : HostError := code 22
def notSupported : HostError := code 38
def nameTooLong : HostError := code 36
def notEmpty : HostError := code 39

/-- What the operating system calls its causes. -/
def reasons : List (Nat × String) := [
  (1, "Operation not permitted"), (2, "No such file or directory"), (4, "Interrupted system call"),
  (5, "Input/output error"), (7, "Argument list too long"), (8, "Exec format error"),
  (11, "Resource temporarily unavailable"), (12, "Cannot allocate memory"),
  (13, "Permission denied"), (16, "Device or resource busy"), (17, "File exists"),
  (18, "Invalid cross-device link"), (20, "Not a directory"), (21, "Is a directory"),
  (22, "Invalid argument"), (23, "Too many open files in system"), (24, "Too many open files"),
  (26, "Text file busy"), (27, "File too large"), (28, "No space left on device"),
  (30, "Read-only file system"), (31, "Too many links"), (32, "Broken pipe"),
  (36, "File name too long"), (38, "Function not implemented"), (39, "Directory not empty"),
  (40, "Too many levels of symbolic links"), (122, "Disk quota exceeded")]

/-- The words for a cause alone. -/
def reason : HostError → String
  | code n => (reasons.lookup n).getD s!"Unknown error {n}"
  | notText => "stream did not contain valid UTF-8"
  | nulInName => "file name contained an unexpected NUL byte"
  | nulInCommand => "nul byte found in provided data"

/-- The text of an error. -/
def message : HostError → String
  | code n => s!"{(code n).reason} (os error {n})"
  | notText => reason notText
  | nulInName => reason nulInName
  | nulInCommand => reason nulInCommand

end HostError

/-- Why a step on a file fails. -/
inductive FileError where
  | permissionDenied (path : String)
  | invalidPath (path : String)
  | invalidPermissions (mode : String)
  | ownership (path reason : String)
  | refused (e : HostError)
  deriving DecidableEq, Repr

/-- The text of an error. -/
def FileError.message : FileError → String
  | permissionDenied path => s!"Permission denied on {path}"
  | invalidPath path => s!"Not a usable file path: {path}"
  | invalidPermissions mode => Mode.invalidMessage mode
  | ownership path reason => s!"Cannot change ownership of {path}: {reason}"
  | refused e => e.message

end Fleet
