/-
# Playbooks as text

Compiling the text of a playbook: the text is read as a document first, and then as a value whose
keys are strings.
-/

import Fleet.Playbook.Compile
import Fleet.Yaml.Value

namespace Fleet

/-- Compile the text of a playbook. -/
def compileText (runners : List String) (text : List Char) : Except CompileError Compilation :=
  match Yaml.Value.read? text with
  | none => .error .yaml
  | some value =>
    match value.toJson with
    | .error e => .error (.malformed e.message)
    | .ok document => compile runners document

end Fleet
