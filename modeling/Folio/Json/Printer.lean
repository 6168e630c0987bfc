import Folio.Json.Basic
import Folio.Number.Numeral
import Folio.Text

/-!
The written forms of a value: without blanks, spread over lines, and as the bare text that a
message shows.
-/

namespace Folio.Json

/-- How one character stands inside quotes. -/
def escapeChar (c : Char) : String :=
  match c with
  | '"' => "\\\""
  | '\\' => "\\\\"
  | '\n' => "\\n"
  | '\r' => "\\r"
  | '\t' => "\\t"
  | c =>
    if c.toNat = 8 then "\\b"
    else if c.toNat = 12 then "\\f"
    else if c.toNat < 0x20 then "\\u" ++ Text.hex4 c.toNat
    else String.singleton c

/-- A text in quotes. -/
def quote (s : String) : String := "\"" ++ String.join (s.toList.map escapeChar) ++ "\""

/-- A text with halves of pairs, in quotes. -/
def quotePieces (pieces : List Piece) : String :=
  let written : Piece → String
    | .char c => escapeChar c
    | .half u => "\\u" ++ Text.hex4 u
  "\"" ++ String.join (pieces.map written) ++ "\""

/-- A key in quotes. -/
def quoteKey (key : String) : String := quotePieces (Key.pieces key.toList)

/-- A number; those without digits are written as `null`. -/
def numeral (x : Float) : String := if (Binary.ofFloat? x).isSome then numberText x else "null"

mutual

/-- The value without any blanks. -/
def compact : Json → String
  | .null => "null"
  | .bool b => if b then "true" else "false"
  | .num x => numeral x
  | .str s => quote s
  | .broken pieces => quotePieces pieces
  | .arr items => "[" ++ ",".intercalate (compactItems items) ++ "]"
  | .obj members => "\x7b" ++ ",".intercalate (compactMembers members) ++ "\x7d"

def compactItems : List Json → List String
  | [] => []
  | v :: rest => compact v :: compactItems rest

def compactMembers : List (String × Json) → List String
  | [] => []
  | (k, v) :: rest => (quoteKey k ++ ":" ++ compact v) :: compactMembers rest

end

/-- One line per part between `left` and `right`, indented by two more than the brackets. -/
def spread (indent : Nat) (left right : String) (parts : List String) : String :=
  if parts.isEmpty then left ++ right
  else
    let inner := "\n" ++ Text.copies (indent + 2) ' '
    left ++ inner ++ ("," ++ inner).intercalate parts ++ "\n" ++ Text.copies indent ' ' ++ right

mutual

/-- The value over several lines, its own lines indented by `indent`. -/
def pretty (indent : Nat) : Json → String
  | .null => "null"
  | .bool b => if b then "true" else "false"
  | .num x => numeral x
  | .str s => quote s
  | .broken pieces => quotePieces pieces
  | .arr items => spread indent "[" "]" (prettyItems (indent + 2) items)
  | .obj members => spread indent "\x7b" "\x7d" (prettyMembers (indent + 2) members)

def prettyItems (indent : Nat) : List Json → List String
  | [] => []
  | v :: rest => pretty indent v :: prettyItems indent rest

def prettyMembers (indent : Nat) : List (String × Json) → List String
  | [] => []
  | (k, v) :: rest => (quoteKey k ++ ": " ++ pretty indent v) :: prettyMembers indent rest

end

mutual

/-- The bare text of a value: texts without quotes, lists by their items with commas between. -/
def bare : Json → String
  | .null => "null"
  | .bool b => if b then "true" else "false"
  | .num x => numberText x
  | .str s => s
  | .broken pieces => String.ofList (pieces.map Piece.toChar)
  | .arr items => ",".intercalate (bareItems items)
  | .obj _ => "[object Object]"

/-- Inside a list `null` leaves its place empty. -/
def bareItems : List Json → List String
  | [] => []
  | .null :: rest => "" :: bareItems rest
  | v :: rest => bare v :: bareItems rest

end

mutual

/-- Whether a value has a bare text. An object that says for itself how it becomes a text has none,
since what it says is a value and no procedure. -/
def hasText : Json → Bool
  | .arr items => allHaveText items
  | .obj members => (find? "toString" members).isNone
  | _ => true

def allHaveText : List Json → Bool
  | [] => true
  | v :: rest => hasText v && allHaveText rest

end

/-- The bare text, if there is one. -/
def bare? (v : Json) : Option String := if v.hasText then some v.bare else none

/-- The number that a value counts as. Lists and objects count as what their text does. -/
def number? : Json → Option Float
  | .null => some 0
  | .bool b => some (if b then 1 else 0)
  | .num x => some x
  | v => v.bare?.map Numeral.ofText

end Folio.Json
