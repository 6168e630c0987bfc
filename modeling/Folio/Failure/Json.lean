import Folio.Failure.Text

/-!
Positions, spans and failures as values of the data format. These forms are for positions counted
in doubles, which is what the format's numbers are.
-/

namespace Folio

def Position.toJson (p : Position Float) : Json :=
  .obj [("line", .num p.line), ("column", .num p.column), ("offset", .num p.offset)]

def Span.toJson (s : Span Float) : Json := .obj [("start", s.start.toJson), ("end", s.stop.toJson)]

namespace Failure

/-- What a failure says beyond its message. -/
def details? : Failure Float → Option Json
  | general _ _ _ details _ _ => details
  | invalidSpan start stop => some (.obj [("start", start.toJson), ("end", stop.toJson)])
  | brokenContract model violation => some (.obj [("modelType", .str model), ("violation", .str violation)])
  | abandoned _ _ => none
  | invalidSetting key value expected path =>
    some (Json.ofPresent
      [("key", some (.str key)), ("value", value), ("expected", some (.str expected)), ("filePath", path.map .str)])

/-- The serialized failure, with its span as text. Details that count as false are left out. -/
def toJson (f : Failure Float) : Json :=
  Json.ofPresent
    [("name", some (.str f.name)), ("message", some (.str f.message)), ("code", some (.str f.code)),
     ("severity", some (.str f.severity.name)), ("details", f.details?.filter Json.truthy), ("span", f.span?.map fun s => .str s.format)]

end Failure

end Folio
