import Folio.Number.Decimal

/-!
What positions are counted in. Everything about spans, trees and layout is written for any such
type: whole numbers count exactly, and doubles round sums that outgrow them.
-/

namespace Folio

/-- A type to count lines, columns and depths in. -/
class Coordinate (α : Type) extends Add α, Sub α, BEq α, LT α, LE α, NatCast α where
  numeral : ∀ n : Nat, OfNat α n
  decLt : DecidableLT α
  decLe : DecidableLE α
  /-- The whole number left when the fraction is cut off; infinities have none, and nothing is left
  of what is no number. -/
  trunc? : α → Option Int
  /-- The decimal text. -/
  text : α → String

namespace Coordinate

variable {α : Type} [Coordinate α]

instance (priority := low) {n : Nat} : OfNat α n := numeral n

instance : DecidableLT α := decLt

instance : DecidableLE α := decLe

/-- The natural number that `x` is, if it is one. -/
def index? (x : α) : Option Nat :=
  match trunc? x with
  | some (.ofNat n) => if (n : α) == x then some n else none
  | _ => none

/-- How many copies `x` asks for: its whole part, which must not be below zero. -/
def count? (x : α) : Option Nat :=
  match trunc? x with
  | some (.ofNat n) => some n
  | _ => none

instance : Coordinate Int where
  toAdd := inferInstance
  toSub := inferInstance
  toBEq := inferInstance
  toLT := inferInstance
  toLE := inferInstance
  toNatCast := inferInstance
  numeral _ := inferInstance
  decLt := inferInstance
  decLe := inferInstance
  trunc? := some
  text := toString

instance : Coordinate Float where
  toAdd := inferInstance
  toSub := inferInstance
  toBEq := inferInstance
  toLT := inferInstance
  toLE := inferInstance
  natCast := Float.ofNat
  numeral _ := inferInstance
  decLt := inferInstance
  decLe := inferInstance
  trunc? x := if x.isNaN then some 0 else (Binary.ofFloat? x).map Binary.trunc
  text := numberText

end Coordinate

end Folio
