import Folio.Failure
import Folio.Session.Registers

/-!
A session on positions and spans. Spans hold positions of their own, so a change of one register
never shows in another.
-/

namespace Folio.SpanSession

variable {α : Type} [Coordinate α]

inductive Value (α : Type) where
  | position (p : Position α)
  | span (s : Span α)

inductive Step (α : Type) where
  | position (target : String) (p : Position α)
  | create (target start stop : String)
  | point (target position : String)
  | merge (target a b : String)
  | expand (span other : String)
  | offset (target span start : String)
  | offsetPosition (target position start : String)
  | setPosition (position : String) (field : Position.Field) (x : α)
  | setSpan (span : String) (which : Span.End) (field : Position.Field) (x : α)
  | equal (a b : String)
  | compare (a b : String)
  | format (span : String)
  | look (name : String)

inductive Answer (α : Type) where
  | value (v : Value α)
  | flag (b : Bool)
  | number (x : α)
  | text (s : String)
  | failed (f : Failure α)

abbrev State (α : Type) := Registers (Value α)

def position? (s : State α) (name : String) : Option (Position α) :=
  match s.get? name with
  | some (.position p) => some p
  | _ => none

def span? (s : State α) (name : String) : Option (Span α) :=
  match s.get? name with
  | some (.span v) => some v
  | _ => none

/-- Stores a value and answers it. -/
def store (s : State α) (name : String) (v : Value α) : State α × Answer α := (s.set name v, .value v)

/-- One step. There is no answer if a register it names does not hold what it needs. -/
def perform (s : State α) : Step α → Option (State α × Answer α)
  | .position target p => some (store s target (.position p))
  | .create target start stop => do
    match Span.createOrFail (← position? s start) (← position? s stop) with
    | .ok v => some (store s target (.span v))
    | .error f => some (s, .failed f)
  | .point target p => do some (store s target (.span (.point (← position? s p))))
  | .merge target a b => do some (store s target (.span ((← span? s a).merge (← span? s b))))
  | .expand v other => do some (store s v (.span ((← span? s v).merge (← span? s other))))
  | .offset target v start => do some (store s target (.span ((← span? s v).offsetBy (← position? s start))))
  | .offsetPosition target p start => do
    some (store s target (.position ((← position? s p).offsetBy (← position? s start))))
  | .setPosition p field x => do some (store s p (.position ((← position? s p).set field x)))
  | .setSpan v which field x => do some (store s v (.span ((← span? s v).set which field x)))
  | .equal a b => do some (s, .flag ((← span? s a) == (← span? s b)))
  | .compare a b => do some (s, .number ((← position? s a).compare (← position? s b)))
  | .format v => do some (s, .text (← span? s v).format)
  | .look name => do some (s, .value (← s.get? name))

end Folio.SpanSession
