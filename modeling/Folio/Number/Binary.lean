/-!
The exact value of a double: a sign, a whole significand and a power of two. Everything that needs
more than the arithmetic of doubles (cutting off a fraction, finding decimal digits) starts here.
-/

namespace Folio

/-- The number `significand * 2 ^ exponent`, below zero when `negative`. -/
structure Binary where
  negative : Bool
  significand : Nat
  exponent : Int
deriving Repr

namespace Binary

/-- Two to the fifty-second, the place above the stored fraction. -/
def fractionEnd : Nat := 0x10000000000000

/-- The exact value of a finite double. Infinities and the not-a-number have none. -/
def ofFloat? (x : Float) : Option Binary :=
  let bits := x.toBits.toNat
  let negative := decide (0x8000000000000000 ≤ bits)
  let fraction := bits % fractionEnd
  match bits / fractionEnd % 0x800 with
  | 2047 => none
  | 0 => some ⟨negative, fraction, -1074⟩
  | biased => some ⟨negative, fraction + fractionEnd, (biased : Int) - 1075⟩

/-- The magnitude without its fraction. -/
def floor (b : Binary) : Nat :=
  if 0 ≤ b.exponent then b.significand * Nat.pow 2 b.exponent.toNat
  else b.significand / Nat.pow 2 (-b.exponent).toNat

/-- The number cut off toward zero. -/
def trunc (b : Binary) : Int :=
  if b.negative then -(b.floor : Int) else b.floor

/-- Whether nothing is cut off. -/
def isWhole (b : Binary) : Bool :=
  decide (0 ≤ b.exponent) || b.significand % Nat.pow 2 (-b.exponent).toNat == 0

end Binary

/-- A finite double without a fraction. -/
def isInteger (x : Float) : Bool :=
  match Binary.ofFloat? x with
  | some b => b.isWhole
  | none => false

end Folio
