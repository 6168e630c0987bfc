import Folio.Json.Parser
import Folio.Path
import Folio.Settings.Validation

/-!
Settings from two files, one for the user and one for the project. What was read is kept until the
cache is cleared, whatever happens to the files meanwhile; a failure keeps nothing.
-/

namespace Folio

/-- What is found at a path. -/
inductive Content where
  | text (content : String)
  /-- The file is there and cannot be read. -/
  | unreadable (reason : String)

/-- The files there are, by path. -/
abbrev Files := List (String × Content)

namespace Files

def find? (path : String) : Files → Option Content
  | [] => none
  | (p, content) :: rest => if p == path then some content else find? path rest

def remove (path : String) (files : Files) : Files := files.filter fun f => f.1 != path

def write (path : String) (content : Content) (files : Files) : Files := (path, content) :: remove path files

end Files

/-- What loading logs. -/
inductive SettingsNotice where
  | unreadable (path reason : String)
  | malformed (path : String)
  | notAnObject (path : String)
  | applied (settings : Resolved)

/-- The entry in the log of the configuration service. -/
def SettingsNotice.entry : SettingsNotice → Log.Entry
  | .unreadable path reason =>
    ⟨.config, .warn, "Failed to load config from " ++ path, some (.obj [("error", .str reason)])⟩
  | .malformed path =>
    ⟨.config, .warn, "Failed to load config from " ++ path, some (.obj [("error", .str "<json syntax error>")])⟩
  | .notAnObject path => ⟨.config, .warn, "Ignoring config in " ++ path ++ ": expected a JSON object", none⟩
  | .applied settings => ⟨.config, .debug, "Applied configuration", some settings.toJson⟩

/-- Notices together with a result or the entry that prevented one. -/
structure Loaded (β : Type) where
  notices : List SettingsNotice := []
  result : Except Settings.Invalid β

/-- What one file says. A file that is missing, unreadable or no object says nothing. -/
def Settings.ofFile (files : Files) (path : String) : Loaded Settings :=
  match files.find? path with
  | none => ⟨[], .ok {}⟩
  | some (.unreadable reason) => ⟨[.unreadable path reason], .ok {}⟩
  | some (.text content) =>
    match Json.parse? content with
    | none => ⟨[.malformed path], .ok {}⟩
    | some (.obj members) => ⟨[], validate path members⟩
    | some _ => ⟨[.notAnObject path], .ok {}⟩

/-- What both files say, the project over the user. The second is not read if the first fails. -/
def Settings.ofFiles (files : Files) (userPath projectPath : String) : Loaded Settings :=
  let user := ofFile files userPath
  match user.result with
  | .error e => ⟨user.notices, .error e⟩
  | .ok base =>
    let project := ofFile files projectPath
    ⟨user.notices ++ project.notices, project.result.map base.override⟩

/-- Where settings come from, and what was read last. -/
structure Loader where
  userPath : String
  projectPath : String
  cache : Option Settings := none
  /-- How many times the files have been read with success. -/
  reads : Nat := 0

namespace Loader

/-- The loader for a home directory and a working directory, unless the paths are given. -/
def create (home cwd : String) (projectPath userPath : Option String) : Loader where
  userPath := userPath.getD (Path.join [home, ".config", "quire.json"])
  projectPath := Path.join [projectPath.getD cwd, "quire.config.json"]

/-- The settings, from the cache if it has them. -/
def load (l : Loader) (files : Files) : Loader × Loaded Settings :=
  match l.cache with
  | some settings => (l, ⟨[], .ok settings⟩)
  | none =>
    let loaded := Settings.ofFiles files l.userPath l.projectPath
    match loaded.result with
    | .ok settings => ({ l with cache := some settings, reads := l.reads + 1 }, loaded)
    | .error _ => (l, loaded)

/-- The settings with defaults filled in. -/
def resolve (l : Loader) (files : Files) : Loader × Loaded Resolved :=
  let (l, loaded) := l.load files
  (l, ⟨loaded.notices, loaded.result.map Settings.resolve⟩)

/-- Resolves the settings in order to put them into effect. -/
def apply (l : Loader) (files : Files) : Loader × Loaded Resolved :=
  let (l, loaded) := l.resolve files
  match loaded.result with
  | .ok settings => (l, ⟨loaded.notices ++ [.applied settings], .ok settings⟩)
  | .error e => (l, ⟨loaded.notices, .error e⟩)

def clearCache (l : Loader) : Loader := { l with cache := none }

end Loader

end Folio
