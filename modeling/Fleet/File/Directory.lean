/-
# Making directories

Making a directory together with those above it that are not there.
-/

import Fleet.Host.Action
import Fleet.Host.Path

namespace Fleet.File

open Host (Attempt)

/-- Make a directory unless it is there. -/
def makeIfMissing (path : String) : Attempt HostError Unit :=
  tryCatch (Host.makeDirectory path) fun e => do
    if ← Host.isDirectory? path then return ()
    throw e

/-- Make the first of some directories. The others are the ones above it, the nearest one first, and
are made as far as they are missing. -/
def makeWithParents : List String → Attempt HostError Unit
  | [] => return ()
  | path :: above =>
    tryCatch (Host.makeDirectory path) fun e => do
      if e = .notFound then
        makeWithParents above
        makeIfMissing path
      else if ← Host.isDirectory? path then return ()
      else throw e

/-- Make the directory of a path and every missing one above it. An empty path asks for nothing. -/
def makeDirectories (path : String) : Attempt HostError Unit :=
  if path.isEmpty then return ()
  else
    makeWithParents
      (path :: ((Path.ancestors path.toList).map fun above => String.ofList above.1).reverse)

end Fleet.File
