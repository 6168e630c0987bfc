import Folio.Paint

/-!
Levels of log entries and the parts of the tool that write them.
-/

namespace Folio.Log

/-- The levels, from the gravest to the most talkative. -/
inductive Level where
  | error
  | warn
  | info
  | http
  | verbose
  | debug
  | silly
deriving DecidableEq, Repr

namespace Level

def all : List Level := [error, warn, info, http, verbose, debug, silly]

def name : Level → String
  | error => "error"
  | warn => "warn"
  | info => "info"
  | http => "http"
  | verbose => "verbose"
  | debug => "debug"
  | silly => "silly"

/-- The place of a level in the table. -/
def rank : Level → Nat
  | error => 0
  | warn => 1
  | info => 2
  | http => 3
  | verbose => 4
  | debug => 5
  | silly => 6

def colour : Level → Colour
  | error => .red
  | warn => .yellow
  | info => .green
  | http => .green
  | verbose => .cyan
  | debug => .blue
  | silly => .magenta

def ofName? (s : String) : Option Level := all.find? fun l => l.name == s

/-- The level that settings fall back to. -/
def default : Level := error

end Level

/-- Words of other vocabularies of levels. They have no place in the table, but a colour. -/
def foreignColours : List (String × Colour) :=
  [("help", .cyan), ("data", .grey), ("prompt", .grey), ("input", .grey), ("emerg", .red), ("alert", .yellow),
   ("crit", .red), ("warning", .red), ("notice", .yellow)]

/-- The colour of entries that call themselves by a level. -/
def colourOf? (name : String) : Option Colour :=
  match Level.ofName? name with
  | some level => some level.colour
  | none => (foreignColours.find? fun c => c.1 == name).map (·.2)

/-- The parts of the tool that have a logger of their own. -/
inductive Service where
  | model
  | layout
  | config
deriving DecidableEq, Repr

namespace Service

def all : List Service := [model, layout, config]

def name : Service → String
  | model => "model"
  | layout => "layout"
  | config => "config"

def ofName? (s : String) : Option Service := all.find? fun v => v.name == s

/-- The level of a service when nothing else sets one. -/
def fallback : Service → Level
  | model => .error
  | layout => .error
  | config => .warn

end Service

/-- The names that every table answers to without holding anything under them. -/
def builtinNames : List String :=
  ["constructor", "toString", "toLocaleString", "valueOf", "hasOwnProperty", "isPrototypeOf", "propertyIsEnumerable",
   "__proto__", "__defineGetter__", "__defineSetter__", "__lookupGetter__", "__lookupSetter__"]

/-- What a logger can be made for: a service, or a name that the table of services answers to
without knowing a level for it. -/
inductive Owner where
  | service (service : Service)
  | builtin (name : String)
deriving DecidableEq, Repr

namespace Owner

def name : Owner → String
  | service s => s.name
  | builtin name => name

def ofName? (s : String) : Option Owner :=
  match Service.ofName? s with
  | some v => some (.service v)
  | none => if builtinNames.contains s then some (.builtin s) else none

/-- The level when nothing else sets one. -/
def fallback? : Owner → Option Level
  | service s => some s.fallback
  | builtin _ => none

end Owner

end Folio.Log
