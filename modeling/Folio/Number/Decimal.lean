import Folio.Number.Binary

/-!
Decimal digits of doubles. Writing takes the fewest digits that read back as the same double and,
of those, the ones nearest to it; reading rounds a decimal to the nearest double.
-/

namespace Folio

/-- The number `digits * 10 ^ exponent`. -/
structure Decimal where
  digits : Nat
  exponent : Int
deriving Repr

namespace Decimal

def countDigits (n : Nat) : Nat := (Nat.toDigits 10 n).length

/-- How many digits stand before the point of a positive number, counted below zero for zeros
that follow the point. -/
def magnitude (b : Binary) : Int :=
  if 0 < b.floor then countDigits b.floor
  else (countDigits (b.significand * Nat.pow 10 400 / Nat.pow 2 (-b.exponent).toNat) : Int) - 400

/-- The doubles next to a power of two are closer below it than above. -/
def isBinadeStart (b : Binary) : Bool :=
  b.significand == Binary.fractionEnd && decide (-1074 < b.exponent)

/-- The multiple of `10 ^ grid` nearest to `b` among its two neighbours that read back as `b`. -/
def onGrid? (b : Binary) (grid : Int) : Option Decimal :=
  -- all numbers below are counted in quarters of the last place of `b`, times `unit`
  let quarter := b.exponent - 2
  let scale := Nat.pow 2 quarter.toNat * Nat.pow 10 (-grid).toNat
  let unit := Nat.pow 2 (-quarter).toNat * Nat.pow 10 grid.toNat
  let value := 4 * b.significand * scale
  let low := (4 * b.significand - if isBinadeStart b then 1 else 2) * scale
  let high := (4 * b.significand + 2) * scale
  let closed := b.significand % 2 == 0
  let readsBack (candidate : Nat) : Bool :=
    if closed then decide (low ≤ candidate * unit ∧ candidate * unit ≤ high)
    else decide (low < candidate * unit ∧ candidate * unit < high)
  let below := value / unit
  let above := below + 1
  let fromBelow := value - below * unit
  let fromAbove := above * unit - value
  match readsBack below, readsBack above with
  | true, true =>
    let takeBelow := fromBelow < fromAbove ∨ (fromBelow = fromAbove ∧ below % 2 = 0)
    some ⟨if takeBelow then below else above, grid⟩
  | true, false => some ⟨below, grid⟩
  | false, true => some ⟨above, grid⟩
  | false, false => none

/-- The fewest digits that read back as `b`. Seventeen always do. -/
def shortest (b : Binary) : Decimal :=
  let size := magnitude b
  ((List.range 17).findSome? fun n => onGrid? b (size - (n + 1 : Nat))).getD ⟨b.floor, 0⟩

/-- The double nearest to a decimal, which is infinite from half a step above the largest one. -/
def toFloat (d : Decimal) : Float :=
  let size : Int := countDigits d.digits + d.exponent
  if d.digits = 0 ∨ size < -400 then 0
  else if 400 < size then 1 / 0
  else Float.ofScientific d.digits (decide (d.exponent < 0)) d.exponent.natAbs

/-- Where plain digits end and an exponent begins. A number whose point stands after digit `n`
is written plainly for `plainAbove < n ≤ plainUpTo`. -/
structure Layout where
  plainAbove : Int
  plainUpTo : Int

/-- Plain digits from a millionth up to twenty-one digits. -/
def plainRange : Layout := ⟨-6, 21⟩

def zeros (n : Int) : List Char := List.replicate n.toNat '0'

/-- Digits without the zeros at their end, and the power of ten of the last one. -/
def significant (d : Decimal) : List Char × Int :=
  let all := Nat.toDigits 10 d.digits
  let kept := (all.reverse.dropWhile (· == '0')).reverse
  (kept, d.exponent + (all.length - kept.length : Nat))

/-- The text of a positive decimal. -/
def write (layout : Layout) (d : Decimal) : List Char :=
  let (digits, exponent) := significant d
  let point := digits.length + exponent
  if layout.plainAbove < point ∧ point ≤ layout.plainUpTo then
    if point ≤ 0 then '0' :: '.' :: (zeros (-point) ++ digits)
    else if digits.length ≤ point then digits ++ zeros exponent
    else digits.take point.toNat ++ '.' :: digits.drop point.toNat
  else
    let power := point - 1
    let sign := if power < 0 then '-' else '+'
    let fraction := if digits.length ≤ 1 then [] else '.' :: digits.drop 1
    digits.take 1 ++ fraction ++ 'e' :: sign :: Nat.toDigits 10 power.natAbs

end Decimal

/-- The text of a double: its shortest digits, zero without a sign, and a word where there are no
digits to write. -/
def numberText (x : Float) : String :=
  match Binary.ofFloat? x with
  | none => if x.isNaN then "NaN" else if x < 0 then "-Infinity" else "Infinity"
  | some b =>
    if b.significand = 0 then "0"
    else
      let digits := Decimal.write Decimal.plainRange (Decimal.shortest b)
      String.ofList (if b.negative then '-' :: digits else digits)

end Folio
