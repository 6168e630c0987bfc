import Folio.Json.Basic
import Folio.Log.Level
import Folio.Model.Copy

/-!
What a service logs: a level, a message, and fields beside it if there are any.
-/

namespace Folio

namespace Log

structure Entry where
  service : Service
  level : Level
  message : String
  fields : Option Json := none

end Log

/-- A copy that breaks the contract is logged before it fails. -/
def BadCopy.entry (b : BadCopy) : Log.Entry :=
  match b.breach with
  | .sameInstance =>
    ⟨.model, .error, "clone() returned the original instance", some (.obj [("model", .str b.model.name)])⟩
  | .otherClass =>
    ⟨.model, .error, "clone() returned an instance of another class",
      some (.obj [("model", .str b.model.name), ("copy", .str b.copy.name)])⟩

end Folio
