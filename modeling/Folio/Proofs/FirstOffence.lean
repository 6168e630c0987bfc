import Folio.Proofs.AcceptedSettings

/-!
# The first entry that cannot be used

Five entries of a file mean something. They are examined in a fixed order, which is not the order
they stand in, and the first one with an unusable value is reported. The file of the user comes
before that of the project, also where the project has a better value for the same key.

1. `Settings.Entry`, `Settings.FirstOffence`: the entries, and the first unusable one.
2. `Settings.validate_eq_error_iff`: it is what a validation fails with.
3. `Found`: what a path leads to, and what is logged about it.
4. `first_offence_reported`: what loading comes to.
-/

namespace Folio

/-- The value that nested keys lead to. Only objects have members. -/
def Json.under? : List String → Json → Option Json
  | [], v => some v
  | key :: rest, v => (v.get? key).bind (Json.under? rest)

namespace Settings

/-! ## Entries -/

/-- The entries of a file that mean something. -/
inductive Entry where
  | layout
  | maxDepth
  | debug
  | logging
  | level

namespace Entry

/-- Every entry, in the order of examination. -/
def all : List Entry := [layout, maxDepth, debug, logging, level]

/-- The keys that lead to an entry. -/
def keys : Entry → List String
  | layout => ["layout"]
  | maxDepth => ["layout", "maxDepth"]
  | debug => ["layout", "debug"]
  | logging => ["logging"]
  | level => ["logging", "level"]

/-- What failures call an entry. -/
def name (entry : Entry) : String := ".".intercalate entry.keys

/-- What failures say that an entry should be. -/
def expected : Entry → String
  | layout => "an object"
  | maxDepth => "a positive integer"
  | debug => "a boolean"
  | logging => "an object"
  | level => "one of error, warn, info, http, verbose, debug, silly"

/-- The values that can be used. A level is one of the names that the table of levels answers to. -/
def Accepts : Entry → Json → Prop
  | layout, v => ∃ members, v = .obj members
  | maxDepth, v => ∃ (x : Float) (n : Int), v = .num x ∧ 1 ≤ n ∧ Denotes x n
  | debug, v => ∃ b, v = .bool b
  | logging, v => ∃ members, v = .obj members
  | level, v => ∃ name, v = .str name ∧ (name ∈ Log.Level.names ∨ name ∈ Log.builtinNames)

/-- The value of an entry in a file with these members, if the entry is there. -/
def value? (members : List (String × Json)) (entry : Entry) : Option Json :=
  Json.under? entry.keys (.obj members)

/-- The entry is there, with a value that cannot be used. -/
def Offends (members : List (String × Json)) (entry : Entry) (v : Json) : Prop :=
  entry.value? members = some v ∧ ¬ entry.Accepts v

/-- What is said of an unusable value. -/
def complaint (path : String) (entry : Entry) (v : Json) : Invalid :=
  ⟨entry.name, v, entry.expected, path⟩

end Entry

/-- `FirstOffence path members e`: an entry cannot be used, none of those that are examined before
it offends, and `e` is what is said of it. -/
def FirstOffence (path : String) (members : List (String × Json)) (e : Invalid) : Prop :=
  ∃ before entry after v, Entry.all = before ++ entry :: after ∧ entry.Offends members v ∧
    (∀ earlier ∈ before, ∀ w, ¬ earlier.Offends members w) ∧ e = entry.complaint path v

/-! ## What validation fails with -/

namespace FirstOffenceLemmas

variable {β γ ε : Type}

/-- What a computation fails with. -/
def failure? : Except ε β → Option ε
  | .error e => some e
  | .ok _ => none

theorem failure?_eq_some_iff {x : Except ε β} {e : ε} : failure? x = some e ↔ x = .error e := by
  cases x <;> simp [failure?]

theorem failure?_eq_none_iff {x : Except ε β} : failure? x = none ↔ ∃ b, x = .ok b := by
  cases x <;> simp [failure?]

/-- One computation after another fails with the first, or else with the second. -/
theorem failure?_bind {x : Except ε β} {f : β → Except ε γ} {later : Option ε}
    (rest : ∀ b, x = .ok b → failure? (f b) = later) :
    failure? (x >>= f) = (failure? x).or later := by
  cases x with
  | error e => rfl
  | ok b => exact rest b rfl

theorem failure?_bind_pure (x : Except ε β) (g : β → γ) :
    failure? (x >>= fun b => pure (g b)) = failure? x := by
  cases x <;> rfl

theorem failure?_mapM (part : Option β) (f : β → Except ε γ) :
    failure? (part.mapM f) = part.bind fun b => failure? (f b) := by
  cases part with
  | none => rfl
  | some b => exact failure?_bind_pure (f b) some

theorem failure?_entry (path key name expected : String) (read : Json → Option β)
    (members : List (String × Json)) :
    failure? (entry path key name expected read members) =
      ((Json.find? name members).filter fun v => !(read v).isSome).map
        fun v => ⟨key, v, expected, path⟩ := by
  unfold entry
  cases Json.find? name members with
  | none => rfl
  | some v => cases readable : read v <;> simp [failure?, readable, Option.filter_some]

/-- Whether a value can be read as what an entry is to be. -/
def readable : Entry → Json → Bool
  | .layout, v => (readSection v).isSome
  | .maxDepth, v => (readDepth v).isSome
  | .debug, v => (readFlag v).isSome
  | .logging, v => (readSection v).isSome
  | .level, v => (readLevel v).isSome

theorem readSection_isSome {v : Json} :
    (readSection v).isSome = true ↔ ∃ members, v = .obj members := by
  cases v <;> simp [readSection]

theorem readDepth_of_accepts {v : Json} (accepted : Entry.maxDepth.Accepts v) :
    ∃ x, readDepth v = some x ∧ .num x = v := by
  obtain ⟨x, n, rfl, positive, denotes⟩ := accepted
  exact ⟨x, if_pos (isPositiveInteger_iff.mpr ⟨n, positive, denotes⟩), rfl⟩

theorem readFlag_of_accepts {v : Json} (accepted : Entry.debug.Accepts v) :
    ∃ b, readFlag v = some b ∧ .bool b = v := by
  obtain ⟨b, rfl⟩ := accepted
  exact ⟨b, rfl, rfl⟩

theorem readLevel_of_accepts {v : Json} (accepted : Entry.level.Accepts v) :
    ∃ name, readLevel v = some name ∧ .str name = v := by
  obtain ⟨name, rfl, known⟩ := accepted
  exact ⟨name, if_pos (isInLevelTable_iff.mpr known), rfl⟩

theorem readable_iff {entry : Entry} {v : Json} : readable entry v = true ↔ entry.Accepts v := by
  cases entry with
  | layout => exact readSection_isSome
  | logging => exact readSection_isSome
  | debug => cases v <;> simp [readable, readFlag, Entry.Accepts]
  | maxDepth =>
    constructor
    · intro read
      obtain ⟨x, isDepth⟩ := Option.isSome_iff_exists.mp read
      obtain ⟨rfl, n, positive, denotes⟩ := readDepth_eq_some isDepth
      exact ⟨x, n, rfl, positive, denotes⟩
    · intro accepted
      obtain ⟨x, isDepth, _⟩ := readDepth_of_accepts accepted
      exact Option.isSome_iff_exists.mpr ⟨x, isDepth⟩
  | level =>
    constructor
    · intro read
      obtain ⟨name, isLevel⟩ := Option.isSome_iff_exists.mp read
      obtain ⟨rfl, known⟩ := readLevel_eq_some isLevel
      exact ⟨name, rfl, isInLevelTable_iff.mp known⟩
    · intro accepted
      obtain ⟨name, isLevel, _⟩ := readLevel_of_accepts accepted
      exact Option.isSome_iff_exists.mpr ⟨name, isLevel⟩

/-- What is said of an entry, if anything is wrong with it. -/
def offence? (path : String) (members : List (String × Json)) (entry : Entry) : Option Invalid :=
  ((entry.value? members).filter fun v => !readable entry v).map (entry.complaint path)

theorem offence?_eq_some_iff {path : String} {members : List (String × Json)} {entry : Entry}
    {e : Invalid} : offence? path members entry = some e ↔
      ∃ v, entry.Offends members v ∧ e = entry.complaint path v := by
  simp only [offence?, Option.map_eq_some_iff, Option.filter_eq_some_iff, Bool.not_eq_true',
    ← Bool.not_eq_true, readable_iff, Entry.Offends, eq_comm (a := e)]

theorem offence?_eq_none_iff {path : String} {members : List (String × Json)} {entry : Entry} :
    offence? path members entry = none ↔ ∀ v, ¬ entry.Offends members v := by
  rw [Option.eq_none_iff_forall_ne_some]
  constructor
  · intro nothing v offends
    exact nothing _ (offence?_eq_some_iff.mpr ⟨v, offends, rfl⟩)
  · intro usable e said
    obtain ⟨v, offends, _⟩ := offence?_eq_some_iff.mp said
    exact usable v offends

/-! The failures of the five checks, one after another, are the offences of the five entries. -/

variable (path : String) (members : List (String × Json))

/-- The members of a section, if it is one. -/
def inside? (name : String) (members : List (String × Json)) : Option (List (String × Json)) :=
  (Json.find? name members).bind readSection

theorem under?_pair (part key : String) :
    Json.under? [part, key] (.obj members) = (inside? part members).bind (Json.find? key) := by
  show (Json.find? part members).bind (fun v => (v.get? key).bind some) = _
  rw [inside?, Option.bind_assoc]
  congr 1
  funext v
  rw [Option.bind_fun_some]
  cases v <;> rfl

theorem failure?_section (entry : Entry) (name : String) (here : entry.keys = [name])
    (isSection : readable entry = fun v => (readSection v).isSome)
    (expected : entry.expected = "an object") :
    failure? (Settings.entry path entry.name name "an object" readSection members) =
      offence? path members entry := by
  rw [failure?_entry, offence?, isSection, Entry.value?, here, ← expected]
  show _ = (((Json.find? name members).bind some).filter _).map _
  rw [Option.bind_fun_some]
  rfl

theorem failure?_setting (entry : Entry) (part name : String) (read : Json → Option β)
    (here : entry.keys = [part, name]) (reads : readable entry = fun v => (read v).isSome) :
    (inside? part members).bind (fun inside =>
        failure? (Settings.entry path entry.name name entry.expected read inside)) =
      offence? path members entry := by
  rw [offence?, reads, Entry.value?, here, under?_pair]
  cases inside? part members with
  | none => rfl
  | some inside => exact failure?_entry ..

theorem bind_or {part : Option β} {f g : β → Option ε} :
    (part.bind fun b => (f b).or (g b)) = (part.bind f).or (part.bind g) := by
  cases part <;> rfl

theorem failure?_layout :
    (inside? "layout" members).bind (fun inside => failure? (validateLayout path inside)) =
      (offence? path members .maxDepth).or (offence? path members .debug) := by
  rw [← failure?_setting path members .maxDepth "layout" "maxDepth" readDepth rfl rfl,
    ← failure?_setting path members .debug "layout" "debug" readFlag rfl rfl, ← bind_or]
  congr 1
  funext inside
  exact failure?_bind fun maxDepth _ => failure?_bind_pure _ (LayoutSettings.mk maxDepth)

theorem failure?_logging :
    (inside? "logging" members).bind (fun inside => failure? (validateLogging path inside)) =
      offence? path members .level := by
  rw [← failure?_setting path members .level "logging" "level" readLevel rfl rfl]
  congr 1
  funext inside
  exact failure?_bind_pure _ LoggingSettings.mk

theorem findSome?_cons_or (a : β) (rest : List β) (f : β → Option ε) :
    (a :: rest).findSome? f = (f a).or (rest.findSome? f) := by
  cases found : f a <;> simp [found]

/-- A validation fails with the first offence in the order of examination. -/
theorem failure?_validate :
    failure? (validate path members) = Entry.all.findSome? (offence? path members) := by
  have logging (layout : Option LayoutSettings) : failure? (do
      let part ← entry path "logging" "logging" "an object" readSection members
      let logging ← part.mapM (validateLogging path)
      pure (Settings.mk layout logging)) =
      (offence? path members .logging).or (offence? path members .level) := by
    rw [← failure?_section path members .logging "logging" rfl rfl rfl, ← failure?_logging]
    refine failure?_bind fun part found => ?_
    rw [failure?_bind_pure, failure?_mapM, entry_eq_ok found]
    rfl
  calc failure? (validate path members)
    _ = (offence? path members .layout).or
          (((offence? path members .maxDepth).or (offence? path members .debug)).or
            ((offence? path members .logging).or (offence? path members .level))) := by
      rw [← failure?_section path members .layout "layout" rfl rfl rfl, ← failure?_layout]
      refine failure?_bind fun part found => ?_
      rw [failure?_bind fun layout _ => logging layout, failure?_mapM, entry_eq_ok found]
      rfl
    _ = Entry.all.findSome? (offence? path members) := by
      simp only [Entry.all, findSome?_cons_or, List.findSome?_nil, Option.or_none, Option.or_assoc]

end FirstOffenceLemmas

open FirstOffenceLemmas

variable {path : String} {members : List (String × Json)}

theorem validate_eq_error_iff {e : Invalid} :
    validate path members = .error e ↔ FirstOffence path members e := by
  rw [← failure?_eq_some_iff, failure?_validate, List.findSome?_eq_some_iff]
  simp only [offence?_eq_some_iff, offence?_eq_none_iff, FirstOffence]
  constructor
  · rintro ⟨before, entry, after, order, ⟨v, offends, said⟩, earlier⟩
    exact ⟨before, entry, after, v, order, offends, earlier, said⟩
  · rintro ⟨before, entry, after, v, order, offends, earlier, said⟩
    exact ⟨before, entry, after, order, ⟨v, offends, said⟩, earlier⟩

end Settings

/-! ## What a path leads to -/

/-- What a path leads to. -/
inductive Found where
  | missing
  /-- The file is there and cannot be read. -/
  | unreadable (reason : String)
  /-- The text is no value. -/
  | malformed
  /-- The text is a value that has no members. -/
  | notAnObject
  | object (members : List (String × Json))

namespace Found

/-- What is logged about it. -/
def warning? (path : String) : Found → Option SettingsNotice
  | unreadable reason => some (.unreadable path reason)
  | malformed => some (.malformed path)
  | notAnObject => some (.notAnObject path)
  | _ => none

/-- The settings that it gives. -/
def settings (path : String) : Found → Except Settings.Invalid Settings
  | object members => Settings.validate path members
  | _ => .ok {}

end Found

namespace Files

def found (files : Files) (path : String) : Found :=
  match files.find? path with
  | none => .missing
  | some (.unreadable reason) => .unreadable reason
  | some (.text content) =>
    match Json.parse? content with
    | none => .malformed
    | some (.obj members) => .object members
    | some _ => .notAnObject

/-- What is logged when the files at these paths are read one after another. -/
def warnings (files : Files) (paths : List String) : List SettingsNotice :=
  paths.filterMap fun path => (files.found path).warning? path

/-- The file at the path is an object, and `e` is what is said of its first unusable entry. -/
def FirstOffence (files : Files) (path : String) (e : Settings.Invalid) : Prop :=
  ∃ members, files.found path = .object members ∧ Settings.FirstOffence path members e

/-- No entry of the file at the path is unusable. -/
def Inoffensive (files : Files) (path : String) : Prop :=
  ∀ e, ¬ files.FirstOffence path e

variable {files : Files} {path : String}

theorem warnings_warn {paths : List String} {notice : SettingsNotice}
    (logged : notice ∈ files.warnings paths) :
    notice.entry.service = .config ∧ notice.entry.level = .warn := by
  obtain ⟨path, _, warned⟩ := List.mem_filterMap.mp logged
  unfold Found.warning? at warned
  split at warned
  · cases warned; exact ⟨rfl, rfl⟩
  · cases warned; exact ⟨rfl, rfl⟩
  · cases warned; exact ⟨rfl, rfl⟩
  · cases warned

theorem warnings_of_object {members : List (String × Json)}
    (object : files.found path = .object members) : files.warnings [path] = [] := by
  simp [warnings, object, Found.warning?]

theorem warnings_append (files : Files) (first second : List String) :
    files.warnings (first ++ second) = files.warnings first ++ files.warnings second :=
  List.filterMap_append

theorem inoffensive_or (files : Files) (path : String) :
    files.Inoffensive path ∨ ∃ e, files.FirstOffence path e := by
  rw [Inoffensive, ← not_exists]
  exact (Classical.em _).symm

end Files

namespace Settings

variable {files : Files} {path : String}

/-- Reading a file logs what there is to warn about, whatever comes of its settings. -/
theorem ofFile_eq (files : Files) (path : String) :
    ofFile files path = ⟨files.warnings [path], (files.found path).settings path⟩ := by
  unfold ofFile Files.warnings
  rw [List.filterMap_cons, List.filterMap_nil]
  unfold Files.found
  cases files.find? path with
  | none => rfl
  | some content =>
    cases content with
    | unreadable reason => rfl
    | text content =>
      dsimp only
      cases Json.parse? content with
      | none => rfl
      | some v => cases v <;> rfl

theorem ofFile_of_offence {e : Invalid} (offence : files.FirstOffence path e) :
    ofFile files path = ⟨[], .error e⟩ := by
  obtain ⟨members, object, first⟩ := offence
  rw [ofFile_eq, Files.warnings_of_object object, object, Found.settings,
    validate_eq_error_iff.mpr first]

theorem ofFile_of_inoffensive (inoffensive : files.Inoffensive path) :
    ∃ s, ofFile files path = ⟨files.warnings [path], .ok s⟩ := by
  rw [ofFile_eq]
  cases found : files.found path with
  | object members =>
    cases valid : validate path members with
    | error e => exact absurd ⟨members, found, validate_eq_error_iff.mp valid⟩ (inoffensive e)
    | ok s => exact ⟨s, by rw [Found.settings, valid]⟩
  | missing | unreadable | malformed | notAnObject => exact ⟨{}, rfl⟩

end Settings

/-! ## What loading comes to -/

namespace Loader

variable {l : Loader} {files : Files} {e : Settings.Invalid}

theorem reading_of_user_offence (offence : files.FirstOffence l.userPath e) :
    l.reading files = ⟨[], .error e⟩ := by
  unfold reading Settings.ofFiles
  rw [Settings.ofFile_of_offence offence]

theorem reading_of_project_offence (inoffensive : files.Inoffensive l.userPath)
    (offence : files.FirstOffence l.projectPath e) :
    l.reading files = ⟨files.warnings [l.userPath], .error e⟩ := by
  obtain ⟨base, read⟩ := Settings.ofFile_of_inoffensive inoffensive
  unfold reading Settings.ofFiles
  rw [read, Settings.ofFile_of_offence offence]
  simp only [List.append_nil]
  rfl

theorem reading_of_inoffensive (first : files.Inoffensive l.userPath)
    (second : files.Inoffensive l.projectPath) :
    ∃ settings, l.reading files =
      ⟨files.warnings [l.userPath, l.projectPath], .ok settings⟩ := by
  obtain ⟨base, userRead⟩ := Settings.ofFile_of_inoffensive first
  obtain ⟨given, projectRead⟩ := Settings.ofFile_of_inoffensive second
  refine ⟨base.override given, ?_⟩
  unfold reading Settings.ofFiles
  rw [userRead, projectRead]
  simp only [← Files.warnings_append, List.singleton_append]
  rfl

/-- Reading logs nothing but warnings of the configuration service. -/
theorem reading_warns {notice : SettingsNotice} (logged : notice ∈ (l.reading files).notices) :
    notice.entry.service = .config ∧ notice.entry.level = .warn := by
  rw [reading, Settings.ofFiles] at logged
  simp only [Settings.ofFile_eq] at logged
  split at logged
  · exact Files.warnings_warn logged
  · rcases List.mem_append.mp logged with user | project
    · exact Files.warnings_warn user
    · exact Files.warnings_warn project

end Loader

/-- Loading fails exactly if one of the two files has an unusable entry. It fails with the first one
of the user, and with the first one of the project only if the user has none. What is logged are
warnings about the files that were read until then and came to nothing. -/
theorem first_offence_reported (l : Loader) (files : Files) (new : l.cache = none) :
    ((∃ why, (l.load files).2.result = .error why) ↔
      ∃ path ∈ [l.userPath, l.projectPath], ∃ e, files.FirstOffence path e) ∧
    (∀ e, files.FirstOffence l.userPath e → (l.load files).2 = ⟨[], .error e⟩) ∧
    (∀ e, files.Inoffensive l.userPath → files.FirstOffence l.projectPath e →
      (l.load files).2 = ⟨files.warnings [l.userPath], .error e⟩) ∧
    (files.Inoffensive l.userPath → files.Inoffensive l.projectPath →
      ∃ settings, (l.load files).2 = ⟨files.warnings [l.userPath, l.projectPath], .ok settings⟩) ∧
    ∀ notice ∈ (l.load files).2.notices,
      notice.entry.service = .config ∧ notice.entry.level = .warn := by
  rw [Loader.load_of_empty new]
  refine ⟨⟨?_, ?_⟩, ?_, ?_, ?_, ?_⟩
  · rintro ⟨why, failed⟩
    by_contra nowhere
    have userFine : files.Inoffensive l.userPath := fun e offence =>
      nowhere ⟨l.userPath, List.mem_cons_self, e, offence⟩
    have projectFine : files.Inoffensive l.projectPath := fun e offence =>
      nowhere ⟨l.projectPath, List.mem_cons_of_mem _ List.mem_cons_self, e, offence⟩
    obtain ⟨settings, read⟩ := Loader.reading_of_inoffensive userFine projectFine
    rw [read] at failed
    cases failed
  · rintro ⟨path, isRead, e, offence⟩
    rcases files.inoffensive_or l.userPath with userFine | ⟨first, userOffence⟩
    · rcases List.mem_pair.mp isRead with rfl | rfl
      · exact absurd offence (userFine e)
      · exact ⟨e, by rw [Loader.reading_of_project_offence userFine offence]⟩
    · exact ⟨first, by rw [Loader.reading_of_user_offence userOffence]⟩
  · exact fun e offence => Loader.reading_of_user_offence offence
  · exact fun e userFine offence => Loader.reading_of_project_offence userFine offence
  · exact fun userFine projectFine => Loader.reading_of_inoffensive userFine projectFine
  · exact fun notice => Loader.reading_warns

open Settings.FirstOffenceLemmas

/-- A new loader for two files. -/
def pairLoader : Loader := { userPath := "user.json", projectPath := "project.json" }

/-- The file of the user breaks off. In that of the project a section is an array and a flag is
nothing, in this order. -/
def twoOffences : Files :=
  [("user.json", .text "\x7b\"layout\":"),
    ("project.json",
      .text "\x7b\"logging\":[],\"layout\":\x7b\"debug\":null,\"theme\":\x7b\x7d\x7d\x7d")]

theorem twoOffences_user : twoOffences.found "user.json" = .malformed := by
  have text : twoOffences.find? "user.json" = some (.text "\x7b\"layout\":") := rfl
  have malformed : Json.parse? "\x7b\"layout\":" = none :=
    Option.isNone_iff_eq_none.mp (by decide +kernel)
  rw [Files.found, text]
  simp only [malformed]

/-- The flag is reported, which stands behind the array and is examined before it. -/
theorem twoOffences_reported :
    pairLoader.cache = none ∧
    ∃ e, twoOffences.FirstOffence "project.json" e ∧ e.key = "layout.debug" ∧
      (pairLoader.load twoOffences).2 = ⟨[.malformed "user.json"], .error e⟩ := by
  have userFine : twoOffences.Inoffensive "user.json" := by
    rintro e ⟨members, object, _⟩
    rw [twoOffences_user] at object
    cases object
  have key : (failure? (pairLoader.load twoOffences).2.result).map (·.key) =
      some "layout.debug" := by decide +kernel
  obtain ⟨fails, _, reported, _⟩ := first_offence_reported pairLoader twoOffences rfl
  obtain ⟨why, failed, _⟩ := Option.map_eq_some_iff.mp key
  obtain ⟨path, isRead, e, offence⟩ := fails.mp ⟨why, failure?_eq_some_iff.mp failed⟩
  rcases List.mem_pair.mp isRead with rfl | rfl
  · exact absurd offence (userFine e)
  · have answer := reported e userFine offence
    have warned : twoOffences.warnings ["user.json"] = [.malformed "user.json"] := by
      simp [Files.warnings, twoOffences_user, Found.warning?]
    rw [answer] at key
    refine ⟨rfl, e, offence, Option.some.inj key, ?_⟩
    rw [answer, ← warned]
    rfl

/-- The file of the user is there, and it is not allowed to read it. -/
def lockedUser : Files := [("user.json", .unreadable "EACCES")]

/-- A file that cannot be read is warned about as well, although it is neither malformed nor a value
without members. -/
theorem unreadable_user_noticed :
    lockedUser.found "user.json" = .unreadable "EACCES" ∧
    lockedUser.found "project.json" = .missing ∧
    (pairLoader.load lockedUser).2 = ⟨[.unreadable "user.json" "EACCES"], .ok {}⟩ :=
  ⟨rfl, rfl, rfl⟩

end Folio
