import Folio.Json.Basic
import Folio.Number.Numeral

/-!
Reading a value from text. The grammar is strict: four kinds of blanks, no comments, no comma
before a closing bracket, no leading zeros and no sign `+` in front of a number.
-/

namespace Folio.Json

/-- What is left of `s` once something has been read from its front. -/
abbrev Rest (s : List Char) := { r : List Char // r.length < s.length }

def isBlank (c : Char) : Bool := c == ' ' || c == '\t' || c == '\n' || c == '\r'

def skipBlanks (s : List Char) : List Char := s.dropWhile isBlank

theorem length_dropWhile_le (p : Char → Bool) (s : List Char) : (s.dropWhile p).length ≤ s.length :=
  (List.dropWhile_suffix p).length_le

theorem length_lt_of_skipBlanks {s rest : List Char} {c : Char} (front : skipBlanks s = c :: rest) :
    rest.length < s.length := by
  have := length_dropWhile_le isBlank s
  rw [← skipBlanks, front, List.length_cons] at this
  omega

/-- What a unit is that does not belong to a pair. -/
def loneUnit (u : Nat) : Piece := if 0xD800 ≤ u ∧ u < 0xE000 then .half u else .char (Char.ofNat u)

/-- Sixteen-bit units put together: two halves of a pair make one character. -/
def joinUnits : List Nat → List Piece
  | [] => []
  | [u] => [loneUnit u]
  | u :: v :: rest =>
    if 0xD800 ≤ u ∧ u < 0xDC00 ∧ 0xDC00 ≤ v ∧ v < 0xE000 then
      .char (Char.ofNat (0x10000 + (u - 0xD800) * 0x400 + (v - 0xDC00))) :: joinUnits rest
    else loneUnit u :: joinUnits (v :: rest)

/-- The unit that four hexadecimal digits spell. -/
def hexUnit? (a b c d : Char) : Option Nat := do
  some ((((← Numeral.digitValue? a) * 16 + (← Numeral.digitValue? b)) * 16 + (← Numeral.digitValue? c)) * 16 + (← Numeral.digitValue? d))

/-- The unit that a one-letter escape stands for. -/
def escaped? (c : Char) : Option Nat :=
  match c with
  | '"' => some 34
  | '\\' => some 92
  | '/' => some 47
  | 'b' => some 8
  | 'f' => some 12
  | 'n' => some 10
  | 'r' => some 13
  | 't' => some 9
  | _ => none

/-- Reads the inside of a text up to its closing quote. -/
def textUnits (s : List Char) : Option (List Nat × Rest s) :=
  match s with
  | [] => none
  | '"' :: rest => some ([], ⟨rest, by simp only [List.length_cons]; omega⟩)
  | '\\' :: 'u' :: a :: b :: c :: d :: rest => do
    let u ← hexUnit? a b c d
    let (us, r) ← textUnits rest
    some (u :: us, ⟨r.1, by have := r.2; simp only [List.length_cons]; omega⟩)
  | '\\' :: e :: rest => do
    let u ← escaped? e
    let (us, r) ← textUnits rest
    some (u :: us, ⟨r.1, by have := r.2; simp only [List.length_cons]; omega⟩)
  | c :: rest =>
    if c.toNat < 0x20 || c == '\\' then none
    else do
      let (us, r) ← textUnits rest
      some (c.toNat :: us, ⟨r.1, by have := r.2; simp only [List.length_cons]; omega⟩)

def text (s : List Char) : Option (List Piece × Rest s) := (textUnits s).map fun (us, r) => (joinUnits us, r)

/-- The value that a text is. -/
def ofPieces (pieces : List Piece) : Json :=
  if pieces.all Piece.isChar then .str (String.ofList (pieces.map Piece.toChar)) else .broken pieces

def isNumeralChar (c : Char) : Bool := c.isDigit || c == '-' || c == '+' || c == '.' || c == 'e' || c == 'E'

/-- Reads one of the three words or a number. -/
def scalar (s : List Char) : Option (Json × Rest s) :=
  match s with
  | 't' :: 'r' :: 'u' :: 'e' :: rest => some (.bool true, ⟨rest, by simp only [List.length_cons]; omega⟩)
  | 'f' :: 'a' :: 'l' :: 's' :: 'e' :: rest => some (.bool false, ⟨rest, by simp only [List.length_cons]; omega⟩)
  | 'n' :: 'u' :: 'l' :: 'l' :: rest => some (.null, ⟨rest, by simp only [List.length_cons]; omega⟩)
  | [] => none
  | c :: rest =>
    if isNumeralChar c then
      (Numeral.strict? (c :: rest.takeWhile isNumeralChar)).map fun x =>
        (.num x, ⟨rest.dropWhile isNumeralChar, by
          have := length_dropWhile_le isNumeralChar rest
          simp only [List.length_cons]; omega⟩)
    else none

mutual

/-- Reads a value, blanks before it included. -/
def value (s : List Char) : Option (Json × Rest s) :=
  match front : skipBlanks s with
  | [] => none
  | '"' :: t => do
    let (u, r) ← text t
    some (ofPieces u, ⟨r.1, by have := length_lt_of_skipBlanks front; have := r.2; omega⟩)
  | '[' :: t =>
    match close : skipBlanks t with
    | ']' :: r => some (.arr [], ⟨r, by
        have := length_lt_of_skipBlanks front; have := length_lt_of_skipBlanks close; omega⟩)
    | _ => do
      let (items, r) ← elements t
      some (.arr items, ⟨r.1, by have := length_lt_of_skipBlanks front; have := r.2; omega⟩)
  | '\x7b' :: t =>
    match close : skipBlanks t with
    | '\x7d' :: r => some (.obj [], ⟨r, by
        have := length_lt_of_skipBlanks front; have := length_lt_of_skipBlanks close; omega⟩)
    | _ => do
      let (entries, r) ← members t
      some (object entries, ⟨r.1, by have := length_lt_of_skipBlanks front; have := r.2; omega⟩)
  | c :: t => do
    let (v, r) ← scalar (c :: t)
    some (v, ⟨r.1, by
      have := length_lt_of_skipBlanks front; have := r.2; simp only [List.length_cons] at this; omega⟩)
termination_by 2 * s.length
decreasing_by
  all_goals have := length_lt_of_skipBlanks front; omega

/-- Reads the items of a list up to its closing bracket. -/
def elements (s : List Char) : Option (List Json × Rest s) := do
  let (v, ⟨r, _⟩) ← value s
  match front : skipBlanks r with
  | ']' :: t => some ([v], ⟨t, by have := length_lt_of_skipBlanks front; omega⟩)
  | ',' :: t =>
    let (vs, u) ← elements t
    some (v :: vs, ⟨u.1, by have := length_lt_of_skipBlanks front; have := u.2; omega⟩)
  | _ => none
termination_by 2 * s.length + 1
decreasing_by
  · omega
  · have := length_lt_of_skipBlanks front; omega

/-- Reads the members of an object up to its closing bracket. -/
def members (s : List Char) : Option (List (String × Json) × Rest s) :=
  match quoteFront : skipBlanks s with
  | '"' :: t => do
    let (key, ⟨r, _⟩) ← text t
    match colonFront : skipBlanks r with
    | ':' :: w => do
      let (v, ⟨rest, _⟩) ← value w
      match front : skipBlanks rest with
      | '\x7d' :: u => some ([(Key.ofPieces key, v)], ⟨u, by
          have := length_lt_of_skipBlanks quoteFront; have := length_lt_of_skipBlanks colonFront
          have := length_lt_of_skipBlanks front; omega⟩)
      | ',' :: u => do
        let (more, z) ← members u
        some ((Key.ofPieces key, v) :: more, ⟨z.1, by
          have := length_lt_of_skipBlanks quoteFront; have := length_lt_of_skipBlanks colonFront
          have := length_lt_of_skipBlanks front; have := z.2; omega⟩)
      | _ => none
    | _ => none
  | _ => none
termination_by 2 * s.length + 1
decreasing_by
  · have := length_lt_of_skipBlanks quoteFront; have := length_lt_of_skipBlanks colonFront; omega
  · have := length_lt_of_skipBlanks quoteFront; have := length_lt_of_skipBlanks colonFront
    have := length_lt_of_skipBlanks front; omega

end

/-- The value that a whole text spells, with nothing but blanks around it. -/
def parse? (s : String) : Option Json := do
  let (v, r) ← value s.toList
  if (skipBlanks r.1).isEmpty then some v else none

end Folio.Json
