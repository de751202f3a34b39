/-
# Comparing content

Whether a file holds some bytes is decided by its size first, and by digests where sizes agree.
-/

import Fleet.Digest.Sha256
import Fleet.Host.Action

namespace Fleet.File

open Host (Attempt)

/-- The digest of the file at a path. -/
def digest (path : String) : Attempt FileError String := do
  return Digest.Sha256.hexDigest (← (Host.read path).mapError .refused)

/-- Whether the file at a path holds some bytes. -/
def sameContent (path : String) (data : Bytes) : Attempt FileError Bool := do
  let i ← (Host.info path).mapError .refused
  if i.size ≠ data.length then return false
  return (← digest path) = Digest.Sha256.hexDigest data

end Fleet.File
