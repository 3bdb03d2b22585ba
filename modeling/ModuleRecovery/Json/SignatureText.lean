import ModuleRecovery.Json.Record
import ModuleRecovery.Signature

/-!
# Call signatures as JSON

A call signature is written as a JSON string of its text form.
-/

namespace ModuleRecovery.CallSignature

open Json

/-- Reads a signature from the text of a JSON string.  A string that is no
signature has the wrong shape. -/
def readJson (input : String) : Except Json.Fault CallSignature :=
  let value : Reader Empty CallSignature := do
    let content ← .scan readText
    match read content with
    | .ok signature => return signature
    | .error _ => .fail .mismatch
  (wholeText value input).2

end ModuleRecovery.CallSignature
