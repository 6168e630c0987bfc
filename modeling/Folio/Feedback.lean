import Folio.Decoration

/-!
What is reported about a document without stopping anything: diagnostics and decorations, gathered
in the order they were found.
-/

namespace Folio

variable {α β γ : Type}

namespace Diagnostic

/-- How grave a diagnostic is. Producers may use words of their own. -/
inductive Level where
  | error
  | warning
  | other (word : String)
deriving DecidableEq, Repr

def Level.name : Level → String
  | .error => "error"
  | .warning => "warning"
  | .other word => word

def Level.ofName (s : String) : Level :=
  if s == "error" then .error else if s == "warning" then .warning else .other s

end Diagnostic

structure Diagnostic where
  level : Diagnostic.Level
  message : String
deriving DecidableEq, Repr

structure Feedback (α : Type) where
  diagnostics : List (Spanned α Diagnostic) := []
  decorations : List (Spanned α Decoration) := []

/-- An error at a span. -/
def Diagnostic.errorAt (span : Span α) (message : String) : Spanned α Diagnostic := ⟨span, .error, message⟩

/-- A warning at a span. -/
def Diagnostic.warningAt (span : Span α) (message : String) : Spanned α Diagnostic := ⟨span, .warning, message⟩

namespace Feedback

def empty : Feedback α := {}

/-- Appends one diagnostic. -/
def report (f : Feedback α) (d : Spanned α Diagnostic) : Feedback α :=
  { f with diagnostics := f.diagnostics ++ [d] }

/-- Appends one decoration. -/
def decorate (f : Feedback α) (d : Spanned α Decoration) : Feedback α :=
  { f with decorations := f.decorations ++ [d] }

/-- The reports of `f`, then those of `g`. -/
def merge (f g : Feedback α) : Feedback α :=
  ⟨f.diagnostics ++ g.diagnostics, f.decorations ++ g.decorations⟩

/-- Moves every report. -/
def offsetBy [Coordinate α] (f : Feedback α) (start : Position α) : Feedback α :=
  ⟨Spanned.offsetAll f.diagnostics start, Spanned.offsetAll f.decorations start⟩

/-- Appends reports that were measured from `start`. -/
def extendOffset [Coordinate α] (f more : Feedback α) (start : Position α) : Feedback α :=
  f.merge (more.offsetBy start)

def hasErrors (f : Feedback α) : Bool := f.diagnostics.any fun d => d.value.level == .error

end Feedback

/-- An output with the feedback gathered while producing it. -/
structure Pass (α β : Type) where
  output : β
  feedback : Feedback α := .empty

/-- Changes the output and keeps the feedback. -/
def Pass.map (f : β → γ) (p : Pass α β) : Pass α γ := ⟨f p.output, p.feedback⟩

end Folio
