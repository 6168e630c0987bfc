import Folio.Feedback
import Folio.Paint
import Folio.Text

/-!
Diagnostics for people: a header with level, message and place, and below it the source line the
span starts on with carets under the marked columns.
-/

namespace Folio

variable {α : Type} [Coordinate α]

/-- What diagnostics point into. -/
inductive Source where
  | text (content : String)
  /-- Something was given that is no text. -/
  | noText
deriving DecidableEq, Repr

/-- How diagnostics are shown: in colours if the terminal has any, and with excerpts if the source
is at hand. -/
structure Display where
  colours : Bool := false
  support : Nat := 0
  source : Option Source := none

def Display.paints (d : Display) : Bool := d.colours && decide (0 < d.support)

/-- Why an excerpt cannot be drawn: a run of columns that is below zero or too long, a line that is
not there although its length is needed, or a source that is no text. -/
inductive Unprintable where
  | badRun
  | missingLine
  | noText
deriving DecidableEq, Repr

namespace Excerpt

/-- How many characters a number of columns asks for. -/
def length (columns : α) : Except Unprintable Nat :=
  match Coordinate.count? columns with
  | some n => .ok n
  | none => .error .badRun

/-- How many columns are marked: to the end of the span, or of the line if the span goes on below
it, and never less than one. What is no number stays none. -/
def width (span : Span α) (row : Option String) : Except Unprintable α := do
  let last ←
    if span.stop.line == span.start.line then pure span.stop.column
    else
      match row with
      | some line => pure (Text.units line : α)
      | none => throw .missingLine
  let marked := last - span.start.column
  return if marked < 1 then 1 else marked

/-- A drawing: a line with its number, and how many blanks and carets stand below it. -/
structure Drawing where
  gutter : String
  row : String
  indent : Nat
  carets : Nat

namespace Drawing

def marker (d : Drawing) (paints : Bool) : String :=
  let carets := Text.copies d.carets '^'
  if paints then Paint.paint [Paint.tint .red] carets else carets

def divider : String := " | "

/-- The source line and the carets below it. -/
def render (d : Drawing) (paints : Bool) : String :=
  Text.unlines
    [d.gutter ++ divider ++ d.row,
     Text.copies (Text.units d.gutter) ' ' ++ divider ++ Text.copies d.indent ' ' ++ d.marker paints]

/-- The length of `render`, found without making it. -/
def units (d : Drawing) (paints : Bool) : Nat :=
  let margin := Text.units d.gutter + Text.units divider
  let paint := if paints && decide (0 < d.carets) then Text.units ((Drawing.mk "" "" 0 1).marker true) - 1 else 0
  margin + Text.units d.row + 1 + (margin + d.indent + d.carets + paint)

end Drawing

/-- The drawing for a span, or nothing if the span starts after the last line. -/
def draw (span : Span α) (source : String) : Except Unprintable (Option Drawing) := do
  let rows := Text.lines source
  if (rows.length : α) ≤ span.start.line then return none
  let row := (Coordinate.index? span.start.line).bind fun i => rows[i]?
  let marked ← width span row
  let gutter := Text.padLeft 4 (Coordinate.text (span.start.line + 1))
  let carets ← length marked
  let indent ← length span.start.column
  return some ⟨gutter, row.getD "undefined", indent, carets⟩

end Excerpt

namespace Diagnostic

/-- Errors are red, anything else is yellow. -/
def paintedLevel (d : Diagnostic) (paints : Bool) : String :=
  let colour := if d.level = .error then Colour.red else Colour.yellow
  if paints then Paint.paint [Paint.tint colour, Paint.bold] d.level.name else d.level.name

def header (d : Spanned α Diagnostic) (paints : Bool) : String :=
  let place := "(at " ++ d.span.format ++ ")"
  d.value.paintedLevel paints ++ ": " ++ d.value.message ++ " " ++ if paints then Paint.paint [Paint.dim] place else place

/-- A header, and the drawing below it if there is one. -/
structure Entry where
  header : String
  drawing : Option Excerpt.Drawing

namespace Entry

def render (e : Entry) (paints : Bool) : String :=
  match e.drawing with
  | some drawing => Text.unlines [e.header, drawing.render paints]
  | none => e.header

/-- The length of `render`, found without making it. -/
def units (e : Entry) (paints : Bool) : Nat :=
  match e.drawing with
  | some drawing => Text.units e.header + 1 + drawing.units paints
  | none => Text.units e.header

/-- Fails if the entry is longer than a text can be. -/
def check (e : Entry) (paints : Bool) : Except Unprintable Entry :=
  if e.units paints ≤ Text.maxUnits then .ok e else .error .badRun

end Entry

/-- What is shown of a diagnostic; the excerpt needs the source. -/
def entry (d : Spanned α Diagnostic) (display : Display) : Except Unprintable Entry := do
  let drawing ←
    match display.source with
    | none => pure none
    | some .noText => throw .noText
    | some (.text source) => Excerpt.draw d.span source
  Entry.check ⟨header d display.paints, drawing⟩ display.paints

/-- A diagnostic with its excerpt, if the display has the source. -/
def format (d : Spanned α Diagnostic) (display : Display) : Except Unprintable String :=
  (entry d display).map fun e => e.render display.paints

end Diagnostic

/-- The length of entries with a line end between each two. -/
def Diagnostic.totalUnits (entries : List Diagnostic.Entry) (paints : Bool) : Nat :=
  entries.foldl (fun n e => n + e.units paints) (entries.length - 1)

/-- The diagnostics one below the other, in the order they were gathered. -/
def Feedback.format (f : Feedback α) (display : Display) : Except Unprintable String := do
  let entries ← f.diagnostics.mapM fun d => Diagnostic.entry d display
  if Text.maxUnits < Diagnostic.totalUnits entries display.paints then throw .badRun
  return Text.unlines (entries.map fun e => e.render display.paints)

end Folio
