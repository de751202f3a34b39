/-
# Lines of a file

Making sure that a file has a line. A line that is missing is written at the end of the file, on a
line of its own, and everything before it stays.
-/

import Fleet.Host.Action
import Fleet.Runner.Error

namespace Fleet.File

open Host (Attempt)

/-- Whether a character ends lines. -/
def isLineEnd (c : Char) : Bool := c = '\x0d' || c = '\x0a'

/-- The line without what ends it. -/
def bareLine (line : String) : List Char := Text.dropEndWhile isLineEnd line.toList

/-- Whether a file of some content has a line. -/
def hasLine (content : Bytes) (line : List Char) : Bool :=
  (Text.lines (Text.Utf8.decodeLossy content)).contains line

/-- The bytes that give a line to a file of some content. -/
def addition (content : Bytes) (line : List Char) : Bytes :=
  let gap := if content.isEmpty || content.getLast? = some 0x0a then [] else ['\x0a']
  Text.Utf8.encode (gap ++ line ++ ['\x0a'])

/-- The content of a file that need not be there. -/
def readIfThere (path : String) : Attempt RunnerError (Option Bytes) :=
  tryCatch (some <$> Host.read path) (fun e => if e = .notFound then pure none else throw e)
    |>.mapError (.refused "read" path)

/-- Give a line to a file unless it has it. The file is made if it is not there. The answer tells
whether the line was written. -/
def ensureLine (path line : String) : Attempt RunnerError Bool := do
  let line := bareLine line
  if line.contains '\x0a' then throw (.invalidArgument "line" "line cannot contain a newline")
  let content ← readIfThere path
  if content.any fun bytes => hasLine bytes line then return false
  (Host.openEnd path).mapError (.refused "open" path)
  (Host.append path (addition (content.getD []) line)).mapError (.refused "write" path)
  (Host.flush path).mapError (.refused "write" path)
  return true

end Fleet.File
