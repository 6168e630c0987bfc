import Folio.Failure
import Folio.Number.Binary
import Folio.Settings.Basic

/-!
Checking what a file says. The entries are examined in a fixed order and the first unusable one is
reported; keys that mean nothing are passed over.
-/

namespace Folio.Settings

/-- An entry that cannot be used, and where it stands. -/
structure Invalid where
  key : String
  value : Json
  expected : String
  path : String

def Invalid.failure {α : Type} (e : Invalid) : Failure α :=
  .invalidSetting e.key (some e.value) e.expected (some e.path)

/-- Whether the table of levels has an answer for a name. -/
def isInLevelTable (name : String) : Bool := (Log.Level.ofName? name).isSome || Log.builtinNames.contains name

def isPositiveInteger (x : Float) : Bool := isInteger x && decide (1 ≤ x)

/-- The value of a key that may be missing. -/
def entry {β : Type} (path key name : String) (expected : String) (read : Json → Option β)
    (members : List (String × Json)) : Except Invalid (Option β) :=
  match Json.find? name members with
  | none => .ok none
  | some v =>
    match read v with
    | some x => .ok (some x)
    | none => .error ⟨key, v, expected, path⟩

def readDepth : Json → Option Float
  | .num x => if isPositiveInteger x then some x else none
  | _ => none

def readFlag : Json → Option Bool
  | .bool b => some b
  | _ => none

def readLevel : Json → Option String
  | .str s => if isInLevelTable s then some s else none
  | _ => none

def readSection : Json → Option (List (String × Json))
  | .obj members => some members
  | _ => none

/-- What a level is expected to be. -/
def levelChoices : String := "one of " ++ ", ".intercalate (Log.Level.all.map Log.Level.name)

def validateLayout (path : String) (members : List (String × Json)) : Except Invalid LayoutSettings := do
  let maxDepth ← entry path "layout.maxDepth" "maxDepth" "a positive integer" readDepth members
  let debug ← entry path "layout.debug" "debug" "a boolean" readFlag members
  return ⟨maxDepth, debug⟩

def validateLogging (path : String) (members : List (String × Json)) : Except Invalid LoggingSettings := do
  let level ← entry path "logging.level" "level" levelChoices readLevel members
  return ⟨level⟩

/-- The settings that the members of a file give, or the first entry that gives none. -/
def validate (path : String) (members : List (String × Json)) : Except Invalid Settings := do
  let layout ← (← entry path "layout" "layout" "an object" readSection members).mapM (validateLayout path)
  let logging ← (← entry path "logging" "logging" "an object" readSection members).mapM (validateLogging path)
  return ⟨layout, logging⟩

end Folio.Settings
