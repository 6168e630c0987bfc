import Folio.Log.Registry
import Folio.Session.Layout
import Folio.Settings.Loader

/-!
A session on the settings: files come and go, and the loader is asked for what they say.
-/

namespace Folio

/-- A layout as the settings want it. -/
def Resolved.configure (s : Resolved) (r : Request Float) : Request Float :=
  { r with limit := s.maxDepth, givenLimit := none, debug := some (.bool s.debug) }

namespace SettingsSession

structure State where
  files : Files
  loader : Loader
  loggers : Log.Registry
  /-- Which reading of the files the last successful load answered with. -/
  lastLoad : Option Nat := none

/-- All loggers exist from the start, at the default level. -/
def loggers : Log.Registry :=
  Log.Service.all.map fun service => Log.Logger.create { level := some Log.Level.default.name } (.service service)

inductive Step where
  | load
  | resolve
  | apply
  | setLevel (level : String)
  | clearCache
  | write (path : String) (content : Content)
  | remove (path : String)
  | layout (request : Request Float)

inductive Answer where
  /-- Settings, and whether they are the very ones of the load before. -/
  | loaded (settings : Settings) (same : Bool)
  | resolved (settings : Resolved)
  | applied (settings : Resolved) (levels : Log.Registry)
  | levels (levels : Log.Registry)
  | laidOut (observation : Observation Float)
  | nothing
  | failed (why : Settings.Invalid)
  /-- Settings that could not be applied, and the levels as they were. -/
  | notApplied (why : Settings.Invalid) (levels : Log.Registry)

/-- An answer with what was logged for it. A layout shows its own entries only. -/
structure Reply where
  entries : List Log.Entry := []
  answer : Answer

def perform (s : State) : Step → State × Reply
  | .load =>
    let (loader, loaded) := s.loader.load s.files
    let entries := loaded.notices.map SettingsNotice.entry
    match loaded.result with
    | .ok settings =>
      ({ s with loader, lastLoad := some loader.reads },
        ⟨entries, .loaded settings (s.lastLoad == some loader.reads)⟩)
    | .error e => ({ s with loader }, ⟨entries, .failed e⟩)
  | .resolve =>
    let (loader, loaded) := s.loader.resolve s.files
    let entries := loaded.notices.map SettingsNotice.entry
    match loaded.result with
    | .ok settings => ({ s with loader }, ⟨entries, .resolved settings⟩)
    | .error e => ({ s with loader }, ⟨entries, .failed e⟩)
  | .apply =>
    let (loader, loaded) := s.loader.apply s.files
    let entries := loaded.notices.map SettingsNotice.entry
    match loaded.result with
    | .ok settings =>
      let loggers := s.loggers.setLevel settings.level
      ({ s with loader, loggers }, ⟨entries, .applied settings loggers⟩)
    | .error e => ({ s with loader }, ⟨entries, .notApplied e s.loggers⟩)
  | .setLevel level =>
    let loggers := s.loggers.setLevel level
    ({ s with loggers }, ⟨[], .levels loggers⟩)
  | .clearCache => ({ s with loader := s.loader.clearCache }, ⟨[], .nothing⟩)
  | .write path content => ({ s with files := s.files.write path content }, ⟨[], .nothing⟩)
  | .remove path => ({ s with files := s.files.remove path }, ⟨[], .nothing⟩)
  | .layout request =>
    let (loader, loaded) := s.loader.resolve s.files
    let entries := loaded.notices.map SettingsNotice.entry
    match loaded.result with
    | .ok settings =>
      let o := (settings.configure request).observe
      ({ s with loader }, ⟨o.entries, .laidOut o⟩)
    | .error e => ({ s with loader }, ⟨entries, .failed e⟩)

end SettingsSession

end Folio
