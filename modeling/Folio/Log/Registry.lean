import Folio.Log.Level
import Folio.Path

/-!
The loggers of the services. A logger takes its level and its outputs from the environment at the
moment it is first asked for; from then on only `setLevel` changes it.
-/

namespace Folio.Log

/-- The surroundings a logger is made in. -/
structure Environment where
  /-- A level for every logger. -/
  level : Option String := none
  /-- The mode the tool runs in. -/
  mode : Option String := none
  /-- A level for loggers in test mode. -/
  testLevel : Option String := none
  debug : Option String := none
  /-- A file to write entries to. All such files are in one directory, so only the last part of the
  path counts. -/
  file : Option String := none

/-- A value that is set and not empty. -/
def nonEmpty (value : Option String) : Option String := value.filter (· != "")

namespace Environment

def isTest (e : Environment) : Bool := e.mode == some "test"

/-- The level of a new logger: the general one, then that of the tests, then debugging, then the
fallback if there is one. -/
def resolveLevel (e : Environment) (fallback : Option Level) : Option String :=
  match nonEmpty e.level with
  | some level => some level
  | none =>
    if e.isTest then some ((nonEmpty e.testLevel).getD Level.error.name)
    else if e.debug == some "true" then some Level.debug.name
    else fallback.map Level.name

/-- Tests stay silent unless a level was asked for. -/
def hasConsole (e : Environment) : Bool := !e.isTest || (nonEmpty e.testLevel).isSome

end Environment

/-- Where entries go. -/
inductive Target where
  | console
  | file (name : String)
deriving DecidableEq, Repr

def Target.name : Target → String
  | .console => "console"
  | .file _ => "file"

/-- An output with the level up to which it writes, if it has one of its own. -/
structure Transport where
  target : Target
  level : Option String

structure Logger where
  owner : Owner
  level : String
  transports : List Transport

namespace Logger

/-- A logger without outputs is silent. -/
def isSilent (l : Logger) : Bool := l.transports.isEmpty

/-- The level of a logger for which nothing sets one. -/
def unsetLevel : Level := .info

def create (e : Environment) (owner : Owner) : Logger :=
  let level := e.resolveLevel owner.fallback?
  let console := if e.hasConsole then [⟨.console, level⟩] else []
  let file := (nonEmpty e.file).toList.map fun path => ⟨.file (Path.lastPart path), level⟩
  ⟨owner, level.getD unsetLevel.name, console ++ file⟩

/-- Gives the logger and all its outputs a level. -/
def setLevel (l : Logger) (level : String) : Logger :=
  { l with level, transports := l.transports.map fun t => { t with level := some level } }

/-- The level that counts for one of the outputs: its own, or else that of the logger. -/
def levelOf (l : Logger) (t : Transport) : String := (nonEmpty t.level).getD l.level

/-- The files that a logger writes to. -/
def files (l : Logger) : List String :=
  l.transports.filterMap fun t =>
    match t.target with
    | .console => none
    | .file name => some name

end Logger

/-- The loggers asked for so far, in that order. -/
abbrev Registry := List Logger

namespace Registry

def find? (r : Registry) (owner : Owner) : Option Logger := List.find? (fun l => l.owner == owner) r

/-- The logger of a service, made now if there is none yet. -/
def obtain (r : Registry) (e : Environment) (owner : Owner) : Registry × Logger :=
  match r.find? owner with
  | some l => (r, l)
  | none =>
    let l := Logger.create e owner
    (r ++ [l], l)

/-- Gives every logger made so far a level. -/
def setLevel (r : Registry) (level : String) : Registry := r.map (·.setLevel level)

/-- The files that the loggers write to, each once. -/
def files (r : Registry) : List String := (r.flatMap Logger.files).eraseDups

end Registry

end Folio.Log
