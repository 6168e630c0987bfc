import Folio.Model.Copy

/-!
The failures that stop an operation. Problems found in a document are never among them: those
travel as diagnostics.
-/

namespace Folio

variable {α : Type}

/-- How far a failure reaches. Whoever raises one may have a word of their own for it. -/
inductive Severity where
  | recoverable
  | fatal
  | info
  | warning
  | other (word : String)
deriving DecidableEq, Repr

namespace Severity

def all : List Severity := [recoverable, fatal, info, warning]

def name : Severity → String
  | recoverable => "recoverable"
  | fatal => "fatal"
  | info => "info"
  | warning => "warning"
  | other word => word

def ofName (s : String) : Severity := (all.find? fun v => v.name == s).getD (.other s)

end Severity

/-- The value that stands for a reason: itself, or the name of the signal when it came without a
word. -/
def AbortReason.toJson? : AbortReason → Option Json
  | .missing => none
  | .unspecified => some (.str "AbortError")
  | .given value => some value

inductive Failure (α : Type) where
  /-- A failure described in full by whoever raises it. -/
  | general (message code : String) (severity : Severity) (details : Option Json)
      (span : Option (Span α)) (cause : Option Json)
  /-- A span whose end lies before its start. -/
  | invalidSpan (start stop : Position α)
  /-- A model that breaks the contract of copies. -/
  | brokenContract (model violation : String)
  /-- A layout that was told to stop. -/
  | abandoned (span : Option (Span α)) (cause : Option AbortReason)
  /-- A setting with a value that cannot be used. -/
  | invalidSetting (key : String) (value : Option Json) (expected : String) (path : Option String)

/-- The failure of a copy. -/
def BadCopy.failure (b : BadCopy) : Failure α := .brokenContract b.model.name b.breach.name

/-- Spans are built through this check. -/
def Span.createOrFail [Coordinate α] (start stop : Position α) : Except (Failure α) (Span α) :=
  match Span.create start stop with
  | some span => .ok span
  | none => .error (.invalidSpan start stop)

end Folio
