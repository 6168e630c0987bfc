import Folio.Text

/-!
Colours on a terminal. A text is painted by an escape sequence before it and one after it; an empty
text stays empty.
-/

namespace Folio

inductive Colour where
  | red
  | green
  | yellow
  | blue
  | magenta
  | cyan
  | grey
deriving DecidableEq, Repr

namespace Colour

def name : Colour → String
  | red => "red"
  | green => "green"
  | yellow => "yellow"
  | blue => "blue"
  | magenta => "magenta"
  | cyan => "cyan"
  | grey => "grey"

/-- The number that switches the colour on. -/
def code : Colour → Nat
  | red => 31
  | green => 32
  | yellow => 33
  | blue => 34
  | magenta => 35
  | cyan => 36
  | grey => 90

end Colour

/-- A way to paint: the numbers that switch it on and off. -/
structure Style where
  on : Nat
  off : Nat
deriving DecidableEq, Repr

namespace Paint

/-- The escape sequence with a number. -/
def escape (code : Nat) : String := "\x1b[" ++ toString code ++ "m"

def bold : Style := ⟨1, 22⟩

def dim : Style := ⟨2, 22⟩

def tint (c : Colour) : Style := ⟨c.code, 39⟩

/-- Switches a style on again wherever the text switches it off. -/
def reopen (s : String) (style : Style) : String :=
  Text.replace (escape style.off) (escape style.off ++ escape style.on) s

/-- Puts every line end outside the paint. -/
def aroundLineEnds (opening closing : List Char) : List Char → List Char
  | [] => []
  | '\r' :: '\n' :: rest => closing ++ '\r' :: '\n' :: (opening ++ aroundLineEnds opening closing rest)
  | '\n' :: rest => closing ++ '\n' :: (opening ++ aroundLineEnds opening closing rest)
  | c :: rest => c :: aroundLineEnds opening closing rest

/-- Paints a text in several styles, given from the outermost to the innermost. -/
def paint (styles : List Style) (s : String) : String :=
  if s == "" then ""
  else
    let opening := String.join (styles.map fun style => escape style.on)
    let closing := String.join (styles.reverse.map fun style => escape style.off)
    let kept := styles.reverse.foldl reopen s
    opening ++ String.ofList (aroundLineEnds opening.toList closing.toList kept.toList) ++ closing

def isBreak (c : Char) : Bool := c == '\n' || c == '\r'

/-- Puts every run of line breaks outside the colour. -/
def aroundBreaks (on off : String) (s : String) : String :=
  let runs := s.toList.splitBy fun a b => isBreak a == isBreak b
  String.join (runs.map fun run =>
    let part := String.ofList run
    if run.any isBreak then off ++ part ++ on else part)

/-- Tints the text of a log entry. Where the text itself ends a colour, this one takes over, and
runs of line breaks stay plain if there is a line feed at all. -/
def tintLines (c : Colour) (s : String) : String :=
  if s == "" then ""
  else
    let on := escape c.code
    let off := escape 39
    let painted := on ++ Text.replace off on s ++ off
    if s.toList.contains '\n' then aroundBreaks on off painted else painted

end Paint

end Folio
