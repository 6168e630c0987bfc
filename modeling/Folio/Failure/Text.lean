import Folio.Failure
import Folio.Json.Printer

/-!
The words of a failure: its name, its code, its message and the one line that shows them all.
-/

namespace Folio.Failure

variable {α : Type} [Coordinate α]

def name : Failure α → String
  | general .. => "QuireError"
  | invalidSpan .. => "SpanError"
  | brokenContract .. => "ModelContractError"
  | abandoned .. => "LayoutAbortedError"
  | invalidSetting .. => "ConfigError"

def code : Failure α → String
  | general _ code _ _ _ _ => code
  | invalidSpan .. => "INVALID_SPAN"
  | brokenContract .. => "MODEL_CONTRACT"
  | abandoned .. => "LAYOUT_ABORTED"
  | invalidSetting .. => "INVALID_CONFIG"

def severity : Failure α → Severity
  | general _ _ severity _ _ _ => severity
  | invalidSpan .. => .fatal
  | brokenContract .. => .fatal
  | abandoned .. => .recoverable
  | invalidSetting .. => .fatal

/-- What a violation of the copy contract looks like. Any but one is about the class. -/
def violationText (violation : String) : String :=
  if violation == Breach.sameInstance.name then "clone() returned the original instance"
  else "clone() returned an instance of a different class"

def message : Failure α → String
  | general message _ _ _ _ _ => message
  | invalidSpan start stop => "Span end " ++ stop.format ++ " lies before its start " ++ start.format
  | brokenContract model violation => "Model " ++ model ++ " violates its contract: " ++ violationText violation
  | abandoned _ _ => "Layout was abandoned"
  | invalidSetting key value expected path =>
    let shown := (value.map Json.compact).getD "undefined"
    let place :=
      match path with
      | none => ""
      | some p => if p == "" then "" else " in " ++ p
    "Invalid value for " ++ key ++ ": " ++ shown ++ " (expected " ++ expected ++ ")" ++ place

def span? : Failure α → Option (Span α)
  | general _ _ _ _ span _ => span
  | abandoned span _ => span
  | _ => none

def cause? : Failure α → Option Json
  | general _ _ _ _ _ cause => cause
  | abandoned _ cause => cause.bind AbortReason.toJson?
  | _ => none

/-- Whether the failure may be reported as a warning instead of stopping anything. -/
def canBeWarning (f : Failure α) : Bool := f.severity == .recoverable || f.severity == .warning

/-- The failure in one line: code, message, place if any, severity. -/
def describe (f : Failure α) : String :=
  let place := (f.span?.map fun s => " at " ++ s.format).getD ""
  "[" ++ f.code ++ "] " ++ f.message ++ place ++ " (Severity: " ++ f.severity.name ++ ")"

end Folio.Failure
