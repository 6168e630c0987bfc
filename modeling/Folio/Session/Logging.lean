import Folio.Log.Output

/-!
A session on the loggers: the environment changes, loggers are asked for and write.
-/

namespace Folio.LoggingSession

open Log

structure State where
  environment : Environment
  registry : Registry := []
  /-- Whether the environment has ever named a file. -/
  namesFile : Bool := false
  /-- What went to files, in the order it was written. -/
  written : List (String × Record) := []

/-- Changes the environment; that it names a file is remembered. -/
def State.enter (s : State) (e : Environment) : State :=
  { s with environment := e, namesFile := s.namesFile || (nonEmpty e.file).isSome }

def start (e : Environment) : State := ({ environment := e } : State).enter e

inductive Step where
  | environment (e : Environment)
  | create (service : String)
  | setLevel (level : String)
  | log (service level message : String) (fields : List (String × Json))

inductive Answer where
  | nothing
  /-- A logger, and whether it was there before. -/
  | logger (l : Logger) (existed : Bool)
  | loggers (registry : Registry)
  | console (text : String)
  | unknownService
  /-- The entry cannot be put into words. -/
  | untellable

def perform (s : State) : Step → State × Answer
  | .environment e => (s.enter e, .nothing)
  | .create name =>
    match Owner.ofName? name with
    | none => (s, .unknownService)
    | some owner =>
      let (registry, l) := s.registry.obtain s.environment owner
      ({ s with registry }, .logger l (s.registry.find? owner).isSome)
  | .setLevel level =>
    let registry := s.registry.setLevel level
    ({ s with registry }, .loggers registry)
  | .log name level message fields =>
    match Owner.ofName? name with
    | none => (s, .unknownService)
    | some owner =>
      let (registry, l) := s.registry.obtain s.environment owner
      if isTellable message fields then
        let w := l.write level message fields
        ({ s with registry, written := s.written ++ w.files }, if w.failed then .untellable else .console w.console)
      else ({ s with registry }, .untellable)

/-- What a file holds in the end: its records by service as read back from it, those of one service
as written. -/
def State.fileRecords (s : State) (name : String) : List Record :=
  ((s.written.filter fun r => r.1 == name).map (·.2)).mergeSort fun a b =>
    Text.precedes a.service.written.bare b.service.written.bare

/-- The files there are in the end, with what they hold, if one was ever named. A file is there as
soon as a logger has it as an output. -/
def State.files? (s : State) : Option (List (String × List Record)) :=
  if s.namesFile then some (s.registry.files.map fun name => (name, s.fileRecords name)) else none

end Folio.LoggingSession
