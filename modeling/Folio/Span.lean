import Folio.Position

/-!
Ranges of source text and values that carry the range they came from. Only `Span.create` checks
that a span does not end before it starts; every other operation works on any span.
-/

namespace Folio

variable {α β γ : Type}

/-- The half-open range from `start` to `stop`. -/
structure Span (α : Type) where
  start : Position α
  stop : Position α
deriving BEq, Repr

namespace Span

variable [Coordinate α]

def zero : Span α := ⟨.zero, .zero⟩

/-- The empty span at a position. -/
def point (p : Position α) : Span α := ⟨p, p⟩

/-- The span between two positions, if the second does not lie before the first. -/
def create (start stop : Position α) : Option (Span α) :=
  if 0 < start.compare stop then none else some ⟨start, stop⟩

/-- The smallest span that covers both. -/
def merge (a b : Span α) : Span α where
  start := if a.start.compare b.start ≤ 0 then a.start else b.start
  stop := if 0 ≤ a.stop.compare b.stop then a.stop else b.stop

def offsetBy (s : Span α) (start : Position α) : Span α :=
  ⟨s.start.offsetBy start, s.stop.offsetBy start⟩

def format (s : Span α) : String := s.start.format ++ "-" ++ s.stop.format

end Span

/-- The two ends of a span, by name. -/
inductive Span.End where
  | start
  | stop

def Span.set (s : Span α) (which : Span.End) (field : Position.Field) (x : α) : Span α :=
  match which with
  | .start => { s with start := s.start.set field x }
  | .stop => { s with stop := s.stop.set field x }

/-- A value with the span of source it came from. -/
structure Spanned (α β : Type) where
  span : Span α
  value : β
deriving BEq, Repr

namespace Spanned

variable [Coordinate α]

def zero (v : β) : Spanned α β := ⟨.zero, v⟩

/-- Changes the value and keeps the span. -/
def map (f : β → γ) (item : Spanned α β) : Spanned α γ := ⟨item.span, f item.value⟩

def offsetBy (item : Spanned α β) (start : Position α) : Spanned α β :=
  ⟨item.span.offsetBy start, item.value⟩

/-- Moves every item of a list. -/
def offsetAll (items : List (Spanned α β)) (start : Position α) : List (Spanned α β) :=
  items.map (·.offsetBy start)

end Spanned

end Folio
