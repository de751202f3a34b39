/-
# Modes and owners

Reading the permission bits and the owner of a path, and setting them where they differ. What is set
already is left alone, and the answer tells whether anything was set.
-/

import Fleet.Host.Action

namespace Fleet.File

open Host (Attempt)

/-- The permission bits of what a path leads to. -/
def mode (path : String) : Attempt FileError Nat := do
  return (← (Host.info path).mapError .refused).mode &&& Mode.greatest

/-- Set the permission bits. -/
def setMode (path : String) (mode : Nat) : Attempt FileError Unit :=
  (Host.setMode path mode).mapError .refused

/-- Set the permission bits unless they are so already. -/
def ensureMode (path : String) (wanted : Nat) : Attempt FileError Bool := do
  if (← mode path) = wanted then return false
  setMode path wanted
  return true

/-- The owner and the group of what a path leads to. -/
def owner (path : String) : Attempt FileError (Nat × Nat) := do
  let i ← (Host.info path).mapError .refused
  return (i.uid, i.gid)

/-- What a change of the owner reports for the causes that it may meet. -/
def ownerReasons : List (Nat × String) := [
  (2, "ENOENT: No such file or directory"), (4, "EINTR: Interrupted system call"),
  (5, "EIO: I/O error"), (12, "ENOMEM: Out of memory"), (14, "EFAULT: Bad address"),
  (20, "ENOTDIR: Not a directory"), (22, "EINVAL: Invalid argument"),
  (28, "ENOSPC: No space left on device"), (30, "EROFS: Read-only file system"),
  (36, "ENAMETOOLONG: File name too long"), (38, "ENOSYS: Function not implemented"),
  (40, "ELOOP: Too many symbolic links encountered"), (122, "EDQUOT: Quota exceeded")]

/-- What a change of the owner reports for a cause. -/
def ownerReason : HostError → String
  | .code n => (ownerReasons.lookup n).getD "UnknownErrno: Unknown errno"
  | _ => "EINVAL: Invalid argument"

/-- The error of a refused change of the owner. -/
def ownerError (path : String) (e : HostError) : FileError :=
  if e = .notPermitted || e = .accessDenied then .permissionDenied path
  else .ownership path (ownerReason e)

/-- The number that is asked for, if the present one differs. -/
def differing? (wanted : Option Nat) (present : Nat) : Option Nat := wanted.filter (· ≠ present)

/-- Set the owner, the group or both, as far as they are asked for and differ. -/
def ensureOwner (path : String) (uid gid : Option Nat) : Attempt FileError Bool := do
  if uid.isNone && gid.isNone then return false
  let (presentUid, presentGid) ← owner path
  let newUid := differing? uid presentUid
  let newGid := differing? gid presentGid
  if newUid.isNone && newGid.isNone then return false
  (Host.setOwner path newUid newGid).mapError (ownerError path)
  return true

end Fleet.File
