/-!
Text as the tool counts it. Lengths and columns are counted in sixteen-bit units, so a character
beyond the basic plane counts twice; lines end at line feeds only.
-/

namespace Folio.Text

/-- The units one character takes. -/
def charUnits (c : Char) : Nat := if c.toNat < 0x10000 then 1 else 2

def listUnits : List Char → Nat
  | [] => 0
  | c :: rest => charUnits c + listUnits rest

/-- The length of a text in units. -/
def units (s : String) : Nat := listUnits s.toList

/-- The units of a text, one after the other. -/
def unitValues : List Char → List Nat
  | [] => []
  | c :: rest =>
    let n := c.toNat
    if n < 0x10000 then n :: unitValues rest
    else (0xD800 + (n - 0x10000) / 0x400) :: (0xDC00 + (n - 0x10000) % 0x400) :: unitValues rest

/-- Whether the first list comes no later than the second in the order of a dictionary. -/
def comesFirst : List Nat → List Nat → Bool
  | [], _ => true
  | _ :: _, [] => false
  | a :: as, b :: bs => decide (a < b) || (a == b && comesFirst as bs)

/-- The order of texts by their units. -/
def precedes (s t : String) : Bool := comesFirst (unitValues s.toList) (unitValues t.toList)

/-- Puts `new` in the place of every `pattern`, from the left, after leaving out `skip` characters. -/
def replaceChars (pattern new : List Char) : Nat → List Char → List Char
  | _, [] => []
  | skip + 1, _ :: rest => replaceChars pattern new skip rest
  | 0, c :: rest =>
    if pattern.isPrefixOf (c :: rest) then new ++ replaceChars pattern new (pattern.length - 1) rest
    else c :: replaceChars pattern new 0 rest

/-- Puts `new` in the place of every `pattern`, which is not empty. -/
def replace (pattern new s : String) : String := String.ofList (replaceChars pattern.toList new.toList 0 s.toList)

/-- Blanks of every kind: those of the keyboard, line ends, and the spaces of the Unicode standard. -/
def isBlank (c : Char) : Bool :=
  let n := c.toNat
  (9 ≤ n && n ≤ 13) || n == 0x20 || n == 0xA0 || n == 0x1680 || (0x2000 ≤ n && n ≤ 0x200A) || n == 0x2028 ||
    n == 0x2029 || n == 0x202F || n == 0x205F || n == 0x3000 || n == 0xFEFF

/-- Without the blanks at both ends. -/
def trim (s : List Char) : List Char := ((s.dropWhile isBlank).reverse.dropWhile isBlank).reverse

/-- The longest text that can be built, in units. -/
def maxUnits : Nat := 536870888

def copies (n : Nat) (c : Char) : String := String.ofList (List.replicate n c)

/-- Blanks in front of `s` until it is `width` units long. -/
def padLeft (width : Nat) (s : String) : String := copies (width - units s) ' ' ++ s

/-- Splits at every line feed. There is always a last line, which may be empty. -/
def splitLines : List Char → List (List Char)
  | [] => [[]]
  | c :: rest =>
    if c = '\n' then [] :: splitLines rest
    else
      match splitLines rest with
      | [] => [[c]]
      | line :: later => (c :: line) :: later

/-- The lines of a text, without their line feeds. -/
def lines (s : String) : List String := (splitLines s.toList).map String.ofList

/-- Lines put together again, with line feeds between them. -/
def unlines (parts : List String) : String := "\n".intercalate parts

/-- A hexadecimal digit in lower case. -/
def hexDigit (n : Nat) : Char := ((Nat.toDigits 16 n).head?).getD '0'

/-- Four hexadecimal digits. -/
def hex4 (n : Nat) : String :=
  String.ofList [hexDigit (n / 4096 % 16), hexDigit (n / 256 % 16), hexDigit (n / 16 % 16), hexDigit (n % 16)]

end Folio.Text
