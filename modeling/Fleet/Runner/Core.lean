/-
# The runners of the library
-/

import Fleet.Runner.Debug
import Fleet.Runner.Download
import Fleet.Runner.Line
import Fleet.Runner.Package
import Fleet.Runner.Program
import Fleet.Runner.Service
import Fleet.Runner.Tree

namespace Fleet

/-- Every runner of the library. -/
def Registry.core : Registry :=
  .ofList [.apt, .authorizedKey, .command, .debug, .getUrl, .lineInFile, .localAction, .service,
    .shell, .tree]

end Fleet
