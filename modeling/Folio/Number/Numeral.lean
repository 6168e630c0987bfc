import Folio.Number.Decimal
import Folio.Text

/-!
Numbers spelled in text. The strict form is the one of data files: digits on both sides of a point,
no zero in front and no sign `+`. A text that merely counts as a number may be freer: it may lack
the digits on one side, have blanks around it, be written in another base or name infinity.
-/

namespace Folio.Numeral

def digitsValue (digits : List Char) : Nat := digits.foldl (fun n c => 10 * n + (c.toNat - '0'.toNat)) 0

/-- The power of ten after a mantissa: nothing, or a mark, a sign if any, and digits. -/
def exponent? : List Char → Option Int
  | [] => some 0
  | mark :: rest =>
    if mark == 'e' || mark == 'E' then
      let (negative, digits) :=
        match rest with
        | '-' :: t => (true, t)
        | '+' :: t => (false, t)
        | t => (false, t)
      if digits.isEmpty || !digits.all Char.isDigit then none
      else some (if negative then -(digitsValue digits : Int) else digitsValue digits)
    else none

/-- A numeral without its sign. -/
structure Unsigned where
  whole : List Char
  /-- The digits after the point, if there is a point. -/
  fraction : Option (List Char)
  power : Int

namespace Unsigned

/-- Takes a text apart. There may be no digits at all. -/
def ofChars? (s : List Char) : Option Unsigned :=
  let whole := s.takeWhile Char.isDigit
  match s.dropWhile Char.isDigit with
  | '.' :: t =>
    (exponent? (t.dropWhile Char.isDigit)).map fun power => ⟨whole, some (t.takeWhile Char.isDigit), power⟩
  | t => (exponent? t).map fun power => ⟨whole, none, power⟩

def fractionDigits (u : Unsigned) : List Char := u.fraction.getD []

def hasDigits (u : Unsigned) : Bool := !u.whole.isEmpty || !u.fractionDigits.isEmpty

/-- Digits on both sides of a point, and no zero in front of others. -/
def isStrict (u : Unsigned) : Bool :=
  !u.whole.isEmpty && !(decide (1 < u.whole.length) && u.whole.head? == some '0') && u.fraction != some []

def value (u : Unsigned) : Float :=
  Decimal.toFloat ⟨digitsValue (u.whole ++ u.fractionDigits), u.power - u.fractionDigits.length⟩

end Unsigned

/-- The number that a numeral of the strict form spells. -/
def strict? (s : List Char) : Option Float := do
  let (negative, s) :=
    match s with
    | '-' :: t => (true, t)
    | t => (false, t)
  let u ← Unsigned.ofChars? s
  if u.isStrict then some (if negative then -u.value else u.value) else none

/-- The value of a digit in bases up to sixteen. -/
def digitValue? (c : Char) : Option Nat :=
  if '0' ≤ c ∧ c ≤ '9' then some (c.toNat - '0'.toNat)
  else if 'a' ≤ c ∧ c ≤ 'f' then some (c.toNat - 'a'.toNat + 10)
  else if 'A' ≤ c ∧ c ≤ 'F' then some (c.toNat - 'A'.toNat + 10)
  else none

/-- The bases that have a letter of their own. -/
def baseOf? (c : Char) : Option Nat :=
  match c with
  | 'x' | 'X' => some 16
  | 'o' | 'O' => some 8
  | 'b' | 'B' => some 2
  | _ => none

/-- The number that digits spell in a base, going on from `n`. -/
def inBase? (base : Nat) : Nat → List Char → Option Nat
  | n, [] => some n
  | n, c :: rest =>
    match digitValue? c with
    | some d => if d < base then inBase? base (base * n + d) rest else none
    | none => none

def notANumber : Float := 0 / 0

/-- A numeral without sign, in the free form, or the word for infinity. -/
def freeUnsigned? (s : List Char) : Option Float :=
  if s == "Infinity".toList then some (1 / 0)
  else (Unsigned.ofChars? s).bind fun u => if u.hasDigits then some u.value else none

/-- A numeral in another base, after its zero and letter. It has no sign. -/
def freeInBase? : List Char → Option Float
  | '0' :: letter :: digits => do
    let base ← baseOf? letter
    if digits.isEmpty then none
    else some (Decimal.toFloat ⟨← inBase? base 0 digits, 0⟩)
  | _ => none

/-- The number that a text counts as: zero if there is nothing but blanks, and not a number if it
spells none. -/
def ofText (s : String) : Float :=
  match Text.trim s.toList with
  | [] => 0
  | '-' :: t => ((freeUnsigned? t).map fun x => -x).getD notANumber
  | '+' :: t => (freeUnsigned? t).getD notANumber
  | t => ((freeInBase? t).orElse fun _ => freeUnsigned? t).getD notANumber

end Folio.Numeral
