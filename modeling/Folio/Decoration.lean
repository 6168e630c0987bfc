import Folio.Runs.Sort
import Folio.Span

/-!
Tags for semantic highlighting. Editors receive the serialized names, so these stay fixed. A model
may bring tags of its own, which are passed on without being known here.
-/

namespace Folio

variable {α : Type}

inductive Decoration where
  | validFuncName
  | invalidFuncName
  | argumentKey
  | objectKey
  | italic
  | bold
  | other (tag : String)
deriving DecidableEq, Repr

namespace Decoration

/-- Every known tag, in the order editors list them. -/
def all : List Decoration := [validFuncName, invalidFuncName, argumentKey, objectKey, italic, bold]

/-- The serialized name. -/
def name : Decoration → String
  | validFuncName => "validFuncName"
  | invalidFuncName => "invalidFuncName"
  | argumentKey => "argumentKey"
  | objectKey => "objectKey"
  | italic => "italic"
  | bold => "bold"
  | other tag => tag

/-- Reads the serialized name of a known tag back. -/
def ofName? (s : String) : Option Decoration := all.find? fun d => d.name == s

/-- The tag with a name, known or not. -/
def ofName (s : String) : Decoration := (ofName? s).getD (.other s)

/-- Orders decorations by where they start; those that start at one place keep their order. A start
without a place counts as equal to all others, which is no order any more; then it matters which
decorations are compared, and they are sorted by runs. -/
def sortByStart [Coordinate α] (items : List (Spanned α Decoration)) : List (Spanned α Decoration) :=
  if items.all fun d => d.span.start.isPlaced then
    items.mergeSort fun a b => !decide (0 < a.span.start.compare b.span.start)
  else Runs.sort (fun a b => decide (a.span.start.compare b.span.start < 0)) items

end Decoration

end Folio
