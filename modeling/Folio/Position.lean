import Folio.Coordinate

/-!
Locations in source text, counted from zero. They are ordered by line and then by column; the
offset is carried along and never consulted.
-/

namespace Folio

variable {α : Type}

structure Position (α : Type) where
  line : α
  column : α
  offset : α
deriving BEq, Repr

namespace Position

variable [Coordinate α]

def zero : Position α := ⟨0, 0, 0⟩

/-- How far `a` lies after `b`: in lines if these differ, else in columns. -/
def compare (a b : Position α) : α :=
  if a.line == b.line then a.column - b.column else a.line - b.line

/-- Whether a position has a place in the order: a number that differs from itself has none. -/
def isPlaced (p : Position α) : Bool := p.line == p.line && p.column == p.column

/-- Where a position measured from `start` lies. The column only moves on the first line, since
later lines start at column zero anyway. -/
def offsetBy (p start : Position α) : Position α where
  line := start.line + p.line
  column := if p.line == 0 then start.column + p.column else p.column
  offset := start.offset + p.offset

/-- The location as a reader counts it, from one. -/
def format (p : Position α) : String :=
  Coordinate.text (p.line + 1) ++ ":" ++ Coordinate.text (p.column + 1)

end Position

/-- The parts of a position, by name. -/
inductive Position.Field where
  | line
  | column
  | offset

def Position.set (p : Position α) (field : Position.Field) (x : α) : Position α :=
  match field with
  | .line => { p with line := x }
  | .column => { p with column := x }
  | .offset => { p with offset := x }

end Folio
