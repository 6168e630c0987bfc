import Folio.Proofs.LoaderHistory
import Folio.Proofs.WholeDoubles

/-!
# What settings can come to

A depth limit that is accepted from a file is a whole number from one on, and a level that is
accepted is one that the table of levels answers to. The table has seven levels, but it answers to
twelve more names that hold nothing; so a file can bring loggers to a level that does not exist.

1. `Settings.validate_eq_ok`: where the settings of a file stand in it.
2. `Settings.Usable`: what holds of settings however they were read, merged and kept.
3. `granted_settings_bounded`: what every request is answered with.
4. `inheritedName_accepted`: the name of no level, in effect.
-/

namespace Folio

/-! ## Levels -/

/-- The names of the levels. -/
def Log.Level.names : List String := Log.Level.all.map Log.Level.name

/-- The table of levels answers to the names of the levels, and to those it has from elsewhere. -/
theorem Settings.isInLevelTable_iff {name : String} :
    isInLevelTable name = true ↔ name ∈ Log.Level.names ∨ name ∈ Log.builtinNames := by
  rw [isInLevelTable, Bool.or_eq_true, List.contains_iff_mem, Log.Level.ofName?, Log.Level.names]
  simp [List.find?_isSome]

/-! ## Settings of one file -/

namespace AcceptedSettingsLemmas

variable {β γ ε : Type}

theorem bind_eq_ok {x : Except ε β} {f : β → Except ε γ} {c : γ}
    (ok : x >>= f = .ok c) : ∃ b, x = .ok b ∧ f b = .ok c := by
  cases x with
  | error e => cases ok
  | ok b => exact ⟨b, rfl, ok⟩

/-- A section is validated if it is there. -/
theorem mapM_eq_ok {x : Option β} {f : β → Except ε γ} {y : Option γ}
    (ok : x.mapM f = .ok y) :
    x = none ∧ y = none ∨ ∃ b c, x = some b ∧ f b = .ok c ∧ y = some c := by
  cases x with
  | none =>
    cases ok
    exact .inl ⟨rfl, rfl⟩
  | some b =>
    obtain ⟨c, done, rest⟩ := bind_eq_ok ok
    cases rest
    exact .inr ⟨b, c, rfl, done, rfl⟩

end AcceptedSettingsLemmas

open AcceptedSettingsLemmas

namespace Settings

/-- The value of a key in a section, if it is there and can be read. -/
def setting? {β : Type} (part key : String) (read : Json → Option β)
    (members : List (String × Json)) : Option β :=
  ((Json.find? part members).bind readSection).bind fun inside => (Json.find? key inside).bind read

section

variable {path : String} {members : List (String × Json)}

theorem entry_eq_ok {β : Type} {key name expected : String} {read : Json → Option β}
    {x : Option β} (ok : entry path key name expected read members = .ok x) :
    x = (Json.find? name members).bind read := by
  unfold entry at ok
  split at ok
  next absent =>
    cases ok
    rw [absent]
    rfl
  next v found =>
    split at ok
    next y readable =>
      cases ok
      rw [found]
      exact readable.symm
    next => cases ok

theorem validateLayout_eq_ok {s : LayoutSettings} (ok : validateLayout path members = .ok s) :
    s.maxDepth = (Json.find? "maxDepth" members).bind readDepth ∧
    s.debug = (Json.find? "debug" members).bind readFlag := by
  obtain ⟨maxDepth, depthRead, ok⟩ := bind_eq_ok ok
  obtain ⟨debug, debugRead, ok⟩ := bind_eq_ok ok
  cases ok
  exact ⟨entry_eq_ok depthRead, entry_eq_ok debugRead⟩

theorem validateLogging_eq_ok {s : LoggingSettings} (ok : validateLogging path members = .ok s) :
    s.level = (Json.find? "level" members).bind readLevel := by
  obtain ⟨level, levelRead, ok⟩ := bind_eq_ok ok
  cases ok
  exact entry_eq_ok levelRead

/-- The settings of a file are what can be read under their keys. -/
theorem validate_eq_ok {s : Settings} (ok : validate path members = .ok s) :
    s.layout.bind (·.maxDepth) = setting? "layout" "maxDepth" readDepth members ∧
    s.layout.bind (·.debug) = setting? "layout" "debug" readFlag members ∧
    s.logging.bind (·.level) = setting? "logging" "level" readLevel members := by
  obtain ⟨layoutPart, layoutFound, ok⟩ := bind_eq_ok ok
  obtain ⟨layout, layoutValid, ok⟩ := bind_eq_ok ok
  obtain ⟨loggingPart, loggingFound, ok⟩ := bind_eq_ok ok
  obtain ⟨logging, loggingValid, ok⟩ := bind_eq_ok ok
  cases ok
  unfold setting?
  rw [← entry_eq_ok layoutFound, ← entry_eq_ok loggingFound]
  refine ⟨?_, ?_, ?_⟩
  · rcases mapM_eq_ok layoutValid with ⟨rfl, rfl⟩ | ⟨inside, checked, rfl, valid, rfl⟩
    · rfl
    · exact (validateLayout_eq_ok valid).1
  · rcases mapM_eq_ok layoutValid with ⟨rfl, rfl⟩ | ⟨inside, checked, rfl, valid, rfl⟩
    · rfl
    · exact (validateLayout_eq_ok valid).2
  · rcases mapM_eq_ok loggingValid with ⟨rfl, rfl⟩ | ⟨inside, checked, rfl, valid, rfl⟩
    · rfl
    · exact validateLogging_eq_ok valid

end

/-! ## Settings of both files -/

theorem bind_overrideSection {σ β : Type} {combine : σ → σ → σ} {key : σ → Option β}
    (keyed : ∀ x y, key (combine x y) = (key y).or (key x)) (a b : Option σ) :
    (overrideSection combine a b).bind key = (b.bind key).or (a.bind key) := by
  cases a with
  | none => cases b <;> simp [overrideSection]
  | some x =>
    cases b with
    | none => simp [overrideSection]
    | some y => exact keyed x y

theorem override_maxDepth (a b : Settings) :
    (a.override b).layout.bind (·.maxDepth) =
      (b.layout.bind (·.maxDepth)).or (a.layout.bind (·.maxDepth)) :=
  bind_overrideSection (fun _ _ => by simp [LayoutSettings.override]) a.layout b.layout

theorem override_debug (a b : Settings) :
    (a.override b).layout.bind (·.debug) =
      (b.layout.bind (·.debug)).or (a.layout.bind (·.debug)) :=
  bind_overrideSection (fun _ _ => by simp [LayoutSettings.override]) a.layout b.layout

theorem override_level (a b : Settings) :
    (a.override b).logging.bind (·.level) =
      (b.logging.bind (·.level)).or (a.logging.bind (·.level)) :=
  bind_overrideSection (fun _ _ => by simp [LoggingSettings.override]) a.logging b.logging

end Settings

/-- `files.SetsLevel path name`: the file at the path asks for the level with this name. -/
def Files.SetsLevel (files : Files) (path name : String) : Prop :=
  ∃ content members logging, files.find? path = some (.text content) ∧
    Json.parse? content = some (.obj members) ∧
    Json.find? "logging" members = some (.obj logging) ∧
    Json.find? "level" logging = some (.str name)

/-- A limit that is set is a whole number from one on, and a level that is set is known to the table
and comes from where `P` says. -/
structure Settings.Usable (P : String → Prop) (s : Settings) : Prop where
  depth : ∀ x, s.layout.bind (·.maxDepth) = some x → ∃ n : Int, 1 ≤ n ∧ Denotes x n
  level : ∀ name, s.logging.bind (·.level) = some name → isInLevelTable name = true ∧ P name

namespace Settings

variable {files : Files} {path : String} {P Q : String → Prop}

theorem usable_empty : Usable P {} where
  depth x set := by cases set
  level name set := by cases set

theorem readDepth_eq_some {v : Json} {x : Float} (read : readDepth v = some x) :
    v = .num x ∧ ∃ n : Int, 1 ≤ n ∧ Denotes x n := by
  unfold readDepth at read
  split at read
  · split at read
    next positive =>
      cases read
      exact ⟨rfl, isPositiveInteger_iff.mp positive⟩
    next => cases read
  · cases read

theorem readLevel_eq_some {v : Json} {name : String} (read : readLevel v = some name) :
    v = .str name ∧ isInLevelTable name = true := by
  unfold readLevel at read
  split at read
  · split at read
    next known =>
      cases read
      exact ⟨rfl, known⟩
    next => cases read
  · cases read

theorem readSection_eq_some {v : Json} {members : List (String × Json)}
    (read : readSection v = some members) : v = .obj members := by
  unfold readSection at read
  split at read
  · cases read
    rfl
  · cases read

theorem setting?_eq_some {β : Type} {part key : String} {read : Json → Option β}
    {members : List (String × Json)} {x : β} (set : setting? part key read members = some x) :
    ∃ inside v, Json.find? part members = some (.obj inside) ∧
      Json.find? key inside = some v ∧ read v = some x := by
  obtain ⟨inside, found, member⟩ := Option.bind_eq_some_iff.mp set
  obtain ⟨v, entry, readable⟩ := Option.bind_eq_some_iff.mp member
  obtain ⟨w, section', isObject⟩ := Option.bind_eq_some_iff.mp found
  rw [readSection_eq_some isObject] at section'
  exact ⟨inside, v, section', entry, readable⟩

theorem usable_ofFile {s : Settings} (read : (ofFile files path).result = .ok s) :
    s.Usable (files.SetsLevel path) := by
  unfold ofFile at read
  split at read
  · cases read
    exact usable_empty
  · cases read
    exact usable_empty
  next content found =>
    split at read
    · cases read
      exact usable_empty
    next members parsed =>
      obtain ⟨depth, _, level⟩ := validate_eq_ok read
      constructor
      · intro x set
        rw [depth] at set
        obtain ⟨_, v, _, _, readable⟩ := setting?_eq_some set
        exact (readDepth_eq_some readable).2
      · intro name set
        rw [level] at set
        obtain ⟨logging, v, inFile, inLogging, readable⟩ := setting?_eq_some set
        obtain ⟨rfl, known⟩ := readLevel_eq_some readable
        exact ⟨known, content, members, logging, found, parsed, inFile, inLogging⟩
    · cases read
      exact usable_empty

theorem Usable.override {a b : Settings} (first : a.Usable P) (second : b.Usable Q) :
    (a.override b).Usable fun name => P name ∨ Q name where
  depth x set := by
    rw [override_maxDepth, Option.or_eq_some_iff] at set
    rcases set with later | ⟨_, earlier⟩
    · exact second.depth x later
    · exact first.depth x earlier
  level name set := by
    rw [override_level, Option.or_eq_some_iff] at set
    rcases set with later | ⟨_, earlier⟩
    · obtain ⟨known, origin⟩ := second.level name later
      exact ⟨known, .inr origin⟩
    · obtain ⟨known, origin⟩ := first.level name earlier
      exact ⟨known, .inl origin⟩

/-- Both files have to be read, and the project goes over the user. -/
theorem ofFiles_eq_ok {userPath projectPath : String} {s : Settings}
    (read : (ofFiles files userPath projectPath).result = .ok s) :
    ∃ user project, (ofFile files userPath).result = .ok user ∧
      (ofFile files projectPath).result = .ok project ∧ s = user.override project := by
  unfold ofFiles at read
  simp only at read
  split at read
  · cases read
  next user userRead =>
    cases projectRead : (ofFile files projectPath).result with
    | error e =>
      rw [projectRead] at read
      cases read
    | ok project =>
      rw [projectRead] at read
      cases read
      exact ⟨user, project, userRead, rfl, rfl⟩

theorem usable_ofFiles {userPath projectPath : String} {s : Settings}
    (read : (ofFiles files userPath projectPath).result = .ok s) :
    s.Usable fun name => files.SetsLevel userPath name ∨ files.SetsLevel projectPath name := by
  obtain ⟨user, project, userRead, projectRead, rfl⟩ := ofFiles_eq_ok read
  exact (usable_ofFile userRead).override (usable_ofFile projectRead)

end Settings

/-! ## Settings with nothing left out -/

/-- The limit is a whole number from one on, and the level is one of the seven, or else one of the
names that the table has from elsewhere and that comes from where `P` says. -/
structure Resolved.Bounded (P : String → Prop) (r : Resolved) : Prop where
  depth : ∃ n : Int, 1 ≤ n ∧ Denotes r.maxDepth n
  level : r.level ∈ Log.Level.names ∨ r.level ∈ Log.builtinNames ∧ P r.level

/-- The defaults pass the checks as well. -/
theorem Settings.Usable.resolve {P : String → Prop} {s : Settings} (usable : s.Usable P) :
    s.resolve.Bounded P := by
  constructor
  · cases set : s.layout.bind (·.maxDepth) with
    | none =>
      have default : s.resolve.maxDepth = Float.ofNat defaultDepth := by
        simp only [Settings.resolve, set, Option.getD_none]
      rw [default]
      exact isPositiveInteger_iff.mp (by decide +kernel)
    | some x =>
      have given : s.resolve.maxDepth = x := by
        simp only [Settings.resolve, set, Option.getD_some]
      rw [given]
      exact usable.depth x set
  · cases set : s.logging.bind (·.level) with
    | none =>
      have default : s.resolve.level = Log.Level.default.name := by
        simp only [Settings.resolve, set, Option.getD_none]
      rw [default]
      exact .inl (by decide)
    | some name =>
      have given : s.resolve.level = name := by
        simp only [Settings.resolve, set, Option.getD_some]
      obtain ⟨known, origin⟩ := usable.level name set
      rw [given]
      rcases isInLevelTable_iff.mp known with isLevel | inherited
      · exact .inl isLevel
      · exact .inr ⟨inherited, origin⟩

namespace SettingsSession

/-- The settings that a request was answered with. -/
def Answer.resolved? : Answer → Option Resolved
  | .resolved settings => some settings
  | .applied settings _ => some settings
  | _ => none

theorem Computed.of_resolved? {result : Except Settings.Invalid Settings} {step : Step} {answer : Answer}
    {resolved : Resolved} (computed : Computed result step answer)
    (answered : answer.resolved? = some resolved) :
    ∃ settings, result = .ok settings ∧ resolved = settings.resolve := by
  cases computed with
  | resolved settings =>
    cases answered
    exact ⟨settings, rfl, rfl⟩
  | applied settings levels =>
    cases answered
    exact ⟨settings, rfl, rfl⟩
  | _ => cases answered

theorem Answer.not_failure_of_resolved? {answer : Answer} {settings : Resolved}
    (answered : answer.resolved? = some settings) : answer.isFailure = false := by
  cases answer with
  | resolved | applied => rfl
  | _ => cases answered

/-- Only requests are answered with settings. -/
theorem Step.succeeds_of_resolved? {s : State} {step : Step} {settings : Resolved}
    (answered : (perform s step).2.answer.resolved? = some settings) : step.Succeeds s := by
  refine ⟨?_, Answer.not_failure_of_resolved? answered⟩
  cases step with
  | load | resolve | apply | layout => rfl
  | setLevel | clearCache | write | remove => cases answered

/-- In every history, the settings that a request is answered with have a whole number from one on
as their limit. Their level is one of the seven, unless one of the two files asked for one of the
names that the table has from elsewhere when the answer was read. Applied settings bring all loggers
to that level and to no other. -/
theorem granted_settings_bounded (s : State) (new : s.loader.cache = none) (steps : List Step)
    (step : Step) (settings : Resolved)
    (answered : (perform (stateAfter perform s steps) step).2.answer.resolved? = some settings) :
    (∃ n : Int, 1 ≤ n ∧ Denotes settings.maxDepth n) ∧
    (settings.level ∈ Log.Level.names ∨ settings.level ∈ Log.builtinNames ∧
      ∃ before first later, steps ++ [step] = before ++ first :: later ∧
        FirstSuccess s before first later ∧
        ((stateAfter perform s before).files.SetsLevel s.loader.userPath settings.level ∨
          (stateAfter perform s before).files.SetsLevel s.loader.projectPath settings.level)) ∧
    (step = .apply → ∀ logger ∈ (stateAfter perform s (steps ++ [step])).loggers,
      logger.level = settings.level ∧
      ∀ transport ∈ logger.transports, transport.level = some settings.level) := by
  have ends : stateAfter perform s (steps ++ [step]) =
      (perform (stateAfter perform s steps) step).1 := stateAfter_append ..
  have succeeds := Step.succeeds_of_resolved? answered
  obtain ⟨kept, cache, computed, _⟩ := succeeds.cache
  obtain ⟨_, same, rfl⟩ := computed.of_resolved? answered
  cases same
  rw [← ends] at cache
  obtain ⟨before, first, later, split, success, read⟩ := (cache_eq_some_iff new).mp cache
  have bounded := (Settings.usable_ofFiles read).resolve
  refine ⟨bounded.depth, ?_, ?_⟩
  · rcases bounded.level with isLevel | ⟨inherited, origin⟩
    · exact .inl isLevel
    · exact .inr ⟨inherited, before, first, later, split, success, origin⟩
  · rintro rfl
    obtain ⟨applied, levels, answer, loggers⟩ := apply_succeeds succeeds
    rw [answer] at answered
    cases answered
    rw [ends, loggers]
    exact fun logger => Log.Registry.level_of_mem_setLevel

/-- The file of the user sets a limit and a level, and that of the project another level. -/
def layeredLevels : State where
  files :=
    [("user.json",
        .text "\x7b\"layout\":\x7b\"maxDepth\":3\x7d,\"logging\":\x7b\"level\":\"info\"\x7d\x7d"),
      ("project.json", .text "\x7b\"logging\":\x7b\"level\":\"silly\"\x7d\x7d")]
  loader := { userPath := "user.json", projectPath := "project.json" }
  loggers := SettingsSession.loggers

/-- The level of the project reaches the loggers, and the limit of the user is a whole number. -/
theorem layeredLevels_bounded :
    layeredLevels.loader.cache = none ∧
    ∃ settings, (perform layeredLevels .apply).2.answer.resolved? = some settings ∧
      settings.level = "silly" ∧ (∃ n : Int, 1 ≤ n ∧ Denotes settings.maxDepth n) ∧
      ∀ logger ∈ (stateAfter perform layeredLevels [.apply]).loggers,
        logger.level = settings.level := by
  have level : (perform layeredLevels .apply).2.answer.resolved?.map (·.level) = some "silly" := by
    decide +kernel
  obtain ⟨settings, answered, silly⟩ := Option.map_eq_some_iff.mp level
  obtain ⟨depth, _, loggers⟩ :=
    granted_settings_bounded layeredLevels rfl [] .apply settings answered
  exact ⟨rfl, settings, answered, silly, depth, fun logger member => (loggers rfl logger member).1⟩

/-- A project asks for a level under a name that every table answers to. -/
def inheritedName : State where
  files := [("project.json", .text "\x7b\"logging\":\x7b\"level\":\"toString\"\x7d\x7d")]
  loader := { userPath := "user.json", projectPath := "project.json" }
  loggers := SettingsSession.loggers

/-- The name is no level, and yet it is accepted and all loggers are brought to it. -/
theorem inheritedName_accepted :
    "toString" ∉ Log.Level.names ∧
    (perform inheritedName .resolve).2.answer.resolved?.map (·.level) = some "toString" ∧
    (stateAfter perform inheritedName [.apply]).loggers.map (·.level) =
      ["toString", "toString", "toString"] := by
  decide +kernel

end SettingsSession

end Folio
