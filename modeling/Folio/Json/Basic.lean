import Folio.Text

/-!
Values of the data format that payloads, configuration files and log entries are written in.
Members of an object keep an order: keys that are array indices come first, in ascending order,
and the others follow in the order they first appeared in.
-/

namespace Folio

/-- A piece of text: a character, or half of a pair of sixteen-bit units whose other half is not
there. -/
inductive Piece where
  | char (c : Char)
  | half (unit : Nat)
deriving DecidableEq, Repr

inductive Json where
  | null
  | bool (b : Bool)
  | num (x : Float)
  | str (s : String)
  /-- Text that has halves of pairs in it and so is no sequence of characters. -/
  | broken (pieces : List Piece)
  | arr (items : List Json)
  | obj (members : List (String × Json))

/-- The character, or the replacement character for a half. -/
def Piece.toChar : Piece → Char
  | .char c => c
  | .half _ => '\uFFFD'

def Piece.isChar : Piece → Bool
  | .char _ => true
  | .half _ => false

/-!
Keys are texts, and a key may have halves of pairs in it. Such a half is kept as a mark and a
character in the place of the half; the mark itself is kept as two marks.
-/

namespace Key

/-- The last character there is, which stands for nothing else. -/
def mark : Char := Char.ofNat 0x10FFFF

/-- The characters that keep one piece. -/
def keep : Piece → List Char
  | .char c => if c = mark then [mark, mark] else [c]
  | .half unit => [mark, Char.ofNat (unit - 0xD000)]

/-- The key with the given pieces. -/
def ofPieces (pieces : List Piece) : String := String.ofList (pieces.flatMap keep)

/-- The pieces that characters keep. -/
def pieces : List Char → List Piece
  | [] => []
  | [c] => [.char c]
  | c :: d :: rest =>
    if c = mark then (if d = mark then .char mark else .half (d.toNat + 0xD000)) :: pieces rest
    else .char c :: pieces (d :: rest)

/-- The key that a text is. -/
def ofText (s : String) : String := ofPieces (s.toList.map .char)

/-- The text of a key, with replacement characters for halves. -/
def text (key : String) : String := String.ofList ((pieces key.toList).map Piece.toChar)

/-- A piece as texts have them: a half is one of the units set aside for pairs. -/
def IsProper : Piece → Prop
  | .char _ => True
  | .half unit => 0xD800 ≤ unit ∧ unit < 0xE000

theorem pieces_keep (p : Piece) (proper : IsProper p) (rest : List Char) :
    pieces (keep p ++ rest) = p :: pieces rest := by
  cases p with
  | char c =>
    by_cases isMark : c = mark
    · simp [keep, isMark, pieces]
    · cases rest <;> simp [keep, isMark, pieces]
  | half unit =>
    obtain ⟨low, high⟩ := proper
    have valid : (unit - 0xD000).isValidChar := by left; omega
    have toNat : (Char.ofNat (unit - 0xD000)).toNat = unit - 0xD000 := by
      rw [Char.ofNat, dif_pos valid]
      rfl
    have notMark : Char.ofNat (unit - 0xD000) ≠ mark := by
      intro equal
      have same := congrArg Char.toNat equal
      have last : mark.toNat = 0x10FFFF := by decide
      omega
    simp [keep, pieces, notMark, toNat]
    omega

/-- Nothing of a key is lost. -/
theorem pieces_ofPieces (ps : List Piece) (proper : ∀ p ∈ ps, IsProper p) :
    pieces (ofPieces ps).toList = ps := by
  rw [ofPieces, String.toList_ofList]
  induction ps with
  | nil => rfl
  | cons p rest ih =>
    rw [List.flatMap_cons, pieces_keep p (proper p List.mem_cons_self)]
    rw [ih fun q present => proper q (List.mem_cons_of_mem p present)]

end Key

namespace Json

/-- The index a key spells, if it spells one without leading zeros below the largest index. -/
def arrayIndex? (key : String) : Option Nat :=
  match key.toList with
  | [] => none
  | ['0'] => some 0
  | '0' :: _ => none
  | digits =>
    if digits.all Char.isDigit && digits.length ≤ 10 then
      let n := digits.foldl (fun n c => 10 * n + (c.toNat - '0'.toNat)) 0
      if n < 0xFFFFFFFF then some n else none
    else none

/-- Gives `key` the value `v` where it stands, or at the end if it is new. -/
def put (key : String) (v : Json) : List (String × Json) → List (String × Json)
  | [] => [(key, v)]
  | (k, old) :: rest => if k == key then (k, v) :: rest else (k, old) :: put key v rest

/-- Index keys in ascending order, then the others. -/
def arrange (members : List (String × Json)) : List (String × Json) :=
  let indexed := members.filterMap fun m => (arrayIndex? m.1).map fun i => (i, m)
  let others := members.filter fun m => (arrayIndex? m.1).isNone
  ((indexed.mergeSort fun a b => a.1 ≤ b.1).map (·.2)) ++ others

/-- An object with the given members. Of two members with one key the later gives the value. -/
def object (members : List (String × Json)) : Json :=
  .obj (arrange (members.foldl (fun kept m => put m.1 m.2 kept) []))

def find? (key : String) : List (String × Json) → Option Json
  | [] => none
  | (k, v) :: rest => if k == key then some v else find? key rest

/-- The member of an object; other values have none. -/
def get? (key : String) : Json → Option Json
  | .obj members => find? key members
  | _ => none

/-- A name that stands for what an object is made from. Where members are copied one by one, a
member of this name is no member of the copy, but lends it its own members. -/
def reservedName : String := "__proto__"

/-- The members that arrive when members are copied one by one. -/
def copiedMembers (members : List (String × Json)) : List (String × Json) :=
  members.filter fun m => m.1 != reservedName

/-- A member of the copy: one of those that arrived, or else a lent one. -/
def findCopied? (key : String) (members : List (String × Json)) : Option Json :=
  match find? key (copiedMembers members) with
  | some v => some v
  | none => (find? reservedName members).bind (get? key)

/-- Items with their places as keys. -/
def indexed : Nat → List Json → List (String × Json)
  | _, [] => []
  | i, v :: rest => (toString i, v) :: indexed (i + 1) rest

/-- The parts of a value: the members of an object, the items of an array. -/
def parts : Json → List (String × Json)
  | .obj members => members
  | .arr items => indexed 0 items
  | _ => []

/-- Each unit of a text as a text of its own. -/
def unitTexts (s : String) : List Json :=
  (Text.unitValues s.toList).map fun u =>
    if 0xD800 ≤ u ∧ u < 0xE000 then .broken [.half u] else .str (String.singleton (Char.ofNat u))

/-- What a value contributes where it is spread out into another: its parts, or its units. -/
def spreadParts : Json → List (String × Json)
  | .str s => indexed 0 (unitTexts s)
  | v => parts v

/-- Writes a whole number. -/
def nat (n : Nat) : Json := .num (Float.ofNat n)

/-- Leaves out the members that have no value. -/
def ofPresent (members : List (String × Option Json)) : Json :=
  .obj (members.filterMap fun m => m.2.map fun v => (m.1, v))

/-- Everything counts as true but `null`, `false`, zero and the empty text. -/
def truthy : Json → Bool
  | .null => false
  | .bool b => b
  | .num x => !(x == 0) && !x.isNaN
  | .str s => s != ""
  | .broken _ => true
  | .arr _ => true
  | .obj _ => true

mutual

/-- What is read back once the value has been written: numbers without digits become `null`. -/
def written : Json → Json
  | .num x => if x.isFinite then .num x else .null
  | .arr items => .arr (writtenItems items)
  | .obj members => .obj (writtenMembers members)
  | v => v

def writtenItems : List Json → List Json
  | [] => []
  | v :: rest => written v :: writtenItems rest

def writtenMembers : List (String × Json) → List (String × Json)
  | [] => []
  | (k, v) :: rest => (k, written v) :: writtenMembers rest

end

mutual

/-- Same value: numbers by their value, members in the same order. -/
def beq : Json → Json → Bool
  | .null, .null => true
  | .bool a, .bool b => a == b
  | .num a, .num b => a == b
  | .str a, .str b => a == b
  | .broken a, .broken b => a == b
  | .arr a, .arr b => beqItems a b
  | .obj a, .obj b => beqMembers a b
  | _, _ => false

def beqItems : List Json → List Json → Bool
  | [], [] => true
  | a :: as, b :: bs => beq a b && beqItems as bs
  | _, _ => false

def beqMembers : List (String × Json) → List (String × Json) → Bool
  | [], [] => true
  | (k, a) :: as, (l, b) :: bs => k == l && beq a b && beqMembers as bs
  | _, _ => false

end

instance : BEq Json := ⟨beq⟩

end Json

end Folio
