import Folio.Proofs.FirstOffence

/-!
# Which file decides

Each of the three settings is decided on its own: by the project if its file sets the key, or else
by the user, or else by a default. Nothing else in the files counts.

1. `Files.value?`, `Loader.value?`: the value under a key, in one file and in both.
2. `Settings.Gives`: settings that say what stands under the keys, read from members, from a file
   and from both files.
3. `Resolved.Tells`: the same with defaults filled in.
4. `settings_by_precedence`: what settings resolve to.
-/

namespace Folio

open Settings Settings.FirstOffenceLemmas AcceptedSettingsLemmas

/-- The entries that are settings and not sections of them. -/
def Settings.Entry.settings : List Entry := [.maxDepth, .debug, .level]

/-- The value of an entry in the file at a path. Only objects have entries. -/
def Files.value? (files : Files) (path : String) (entry : Entry) : Option Json :=
  match files.found path with
  | .object members => entry.value? members
  | _ => none

/-- The value of an entry in the file of the project, or else in that of the user. -/
def Loader.value? (l : Loader) (files : Files) (entry : Entry) : Option Json :=
  (files.value? l.projectPath entry).or (files.value? l.userPath entry)

/-- `s.Gives value?`: the settings are those that stand under the keys, and their sections are those
that are there. -/
structure Settings.Gives (s : Settings) (value? : Entry → Option Json) : Prop where
  layout : s.layout.isSome = (value? .layout).isSome
  maxDepth : (s.layout.bind (·.maxDepth)).map .num = value? .maxDepth
  debug : (s.layout.bind (·.debug)).map .bool = value? .debug
  logging : s.logging.isSome = (value? .logging).isSome
  level : (s.logging.bind (·.level)).map .str = value? .level

/-- `r.Tells value?`: each setting is what stands under its key, or else the default. -/
structure Resolved.Tells (r : Resolved) (value? : Entry → Option Json) : Prop where
  maxDepth : .num r.maxDepth = (value? .maxDepth).getD (.num 64)
  debug : .bool r.debug = (value? .debug).getD (.bool false)
  level : .str r.level = (value? .level).getD (.str "error")

/-- Settings are alike if the same values stand under their keys. -/
theorem Resolved.Tells.eq {r r' : Resolved} {u v : Entry → Option Json} (first : r.Tells u)
    (second : r'.Tells v) (same : ∀ entry ∈ Entry.settings, u entry = v entry) : r = r' := by
  obtain ⟨maxDepth, debug, level⟩ := first
  obtain ⟨maxDepth', debug', level'⟩ := second
  rw [same .maxDepth (by simp [Entry.settings]), ← maxDepth'] at maxDepth
  rw [same .debug (by simp [Entry.settings]), ← debug'] at debug
  rw [same .level (by simp [Entry.settings]), ← level'] at level
  show Resolved.mk r.maxDepth r.debug r.level = _
  rw [Json.num.inj maxDepth, Json.bool.inj debug, Json.str.inj level]

namespace Settings

/-! ## Members -/

section

variable {path : String} {members : List (String × Json)}

/-- The entries of a file that gave settings are usable. -/
theorem inoffensive_of_validate {s : Settings} (valid : validate path members = .ok s)
    (entry : Entry) (v : Json) : ¬ entry.Offends members v := by
  have nothing : failure? (validate path members) = none := failure?_eq_none_iff.mpr ⟨s, valid⟩
  rw [failure?_validate, List.findSome?_eq_none_iff] at nothing
  have examined : entry ∈ Entry.all := by cases entry <;> simp [Entry.all]
  exact offence?_eq_none_iff.mp (nothing entry examined) v

/-- A value that is read gives itself back, so that reading all usable values changes none. -/
theorem map_setting? {β : Type} {entry : Entry} {part key : String} {read : Json → Option β}
    {write : β → Json} (here : entry.keys = [part, key])
    (reads : ∀ v, entry.Accepts v → ∃ x, read v = some x ∧ write x = v)
    (usable : ∀ v, ¬ entry.Offends members v) :
    (setting? part key read members).map write = entry.value? members := by
  have through : setting? part key read members = (entry.value? members).bind read := by
    rw [Entry.value?, here, under?_pair, Option.bind_assoc]
    rfl
  rw [through]
  cases present : entry.value? members with
  | none => rfl
  | some v =>
    have accepted : entry.Accepts v := by
      by_contra unusable
      exact usable v ⟨present, unusable⟩
    obtain ⟨x, isRead, rfl⟩ := reads v accepted
    rw [Option.bind_some, isRead]
    rfl

/-- A section is read if it is there. -/
theorem section_of_entry {part : Option (List (String × Json))} {key name expected : String}
    {entry : Entry} (here : entry.keys = [name])
    (found : Settings.entry path key name expected readSection members = .ok part) :
    part.isSome = (entry.value? members).isSome := by
  have value : entry.value? members = Json.find? name members := by
    rw [Entry.value?, here]
    exact Option.bind_fun_some _
  rw [value]
  unfold Settings.entry at found
  split at found
  next absent =>
    cases found
    rw [absent]
    rfl
  next v present =>
    split at found
    next inside _ =>
      cases found
      rw [present]
      rfl
    next => cases found

theorem sections_of_validate {s : Settings} (valid : validate path members = .ok s) :
    s.layout.isSome = (Entry.layout.value? members).isSome ∧
    s.logging.isSome = (Entry.logging.value? members).isSome := by
  obtain ⟨layoutPart, layoutFound, valid⟩ := bind_eq_ok valid
  obtain ⟨layout, layoutValid, valid⟩ := bind_eq_ok valid
  obtain ⟨loggingPart, loggingFound, valid⟩ := bind_eq_ok valid
  obtain ⟨logging, loggingValid, valid⟩ := bind_eq_ok valid
  cases valid
  rw [← section_of_entry rfl layoutFound, ← section_of_entry rfl loggingFound]
  constructor
  · rcases mapM_eq_ok layoutValid with ⟨rfl, rfl⟩ | ⟨inside, checked, rfl, _, rfl⟩
    · rfl
    · rfl
  · rcases mapM_eq_ok loggingValid with ⟨rfl, rfl⟩ | ⟨inside, checked, rfl, _, rfl⟩
    · rfl
    · rfl

theorem gives_validate {s : Settings} (valid : validate path members = .ok s) :
    s.Gives (Entry.value? members) := by
  obtain ⟨maxDepth, debug, level⟩ := validate_eq_ok valid
  obtain ⟨layout, logging⟩ := sections_of_validate valid
  have usable := inoffensive_of_validate valid
  refine ⟨layout, ?_, ?_, logging, ?_⟩
  · rw [maxDepth]
    exact map_setting? rfl (fun _ => readDepth_of_accepts) (usable .maxDepth)
  · rw [debug]
    exact map_setting? rfl (fun _ => readFlag_of_accepts) (usable .debug)
  · rw [level]
    exact map_setting? rfl (fun _ => readLevel_of_accepts) (usable .level)

end

/-! ## Files -/

section

variable {files : Files} {path : String}

theorem gives_empty : Gives {} fun _ => none where
  layout := rfl
  maxDepth := rfl
  debug := rfl
  logging := rfl
  level := rfl

theorem gives_ofFile {s : Settings} (read : (ofFile files path).result = .ok s) :
    s.Gives (files.value? path) := by
  rw [ofFile_eq] at read
  unfold Files.value?
  cases found : files.found path with
  | object members =>
    rw [found] at read
    exact gives_validate read
  | missing | unreadable | malformed | notAnObject =>
    rw [found] at read
    cases read
    exact gives_empty

end

/-! ## Both files and the defaults -/

theorem isSome_overrideSection {σ : Type} (combine : σ → σ → σ) (a b : Option σ) :
    (overrideSection combine a b).isSome = (b.isSome || a.isSome) := by
  cases a <;> cases b <;> rfl

namespace Gives

variable {a b s : Settings} {u v value? : Entry → Option Json}

theorem override (first : a.Gives u) (second : b.Gives v) :
    (a.override b).Gives fun entry => (v entry).or (u entry) where
  layout := by
    rw [Option.isSome_or, ← second.layout, ← first.layout]
    exact isSome_overrideSection ..
  maxDepth := by rw [override_maxDepth, Option.map_or, second.maxDepth, first.maxDepth]
  debug := by rw [override_debug, Option.map_or, second.debug, first.debug]
  logging := by
    rw [Option.isSome_or, ← second.logging, ← first.logging]
    exact isSome_overrideSection ..
  level := by rw [override_level, Option.map_or, second.level, first.level]

theorem tells (gives : s.Gives value?) : s.resolve.Tells value? where
  maxDepth := by
    rw [← gives.maxDepth]
    exact (Option.getD_map ..).symm
  debug := by
    rw [← gives.debug]
    exact (Option.getD_map ..).symm
  level := by
    rw [← gives.level]
    exact (Option.getD_map ..).symm

end Gives

theorem gives_reading {l : Loader} {files : Files} {s : Settings}
    (read : (l.reading files).result = .ok s) : s.Gives (l.value? files) := by
  obtain ⟨user, project, userRead, projectRead, rfl⟩ := ofFiles_eq_ok read
  exact (gives_ofFile userRead).override (gives_ofFile projectRead)

theorem gives_load {l : Loader} {files : Files} {s : Settings} (new : l.cache = none)
    (loads : (l.load files).2.result = .ok s) : s.Gives (l.value? files) := by
  rw [Loader.load_of_empty new] at loads
  exact gives_reading loads

end Settings

theorem Loader.resolve_of_load {l : Loader} {files : Files} {s : Settings}
    (loads : (l.load files).2.result = .ok s) : (l.resolve files).2.result = .ok s.resolve := by
  show (l.load files).2.result.map Settings.resolve = _
  rw [loads]
  rfl

/-- Where loading succeeds, each setting is what the project sets, or else what the user sets, or
else the default. Settings that are loaded from other files resolve to the same if each of the two
files sets the same keys to the same values, whatever else the files hold and in whatever order. -/
theorem settings_by_precedence (l : Loader) (files : Files) (new : l.cache = none)
    (settings : Settings) (loads : (l.load files).2.result = .ok settings) :
    (∃ resolved, (l.resolve files).2.result = .ok resolved ∧
      .num resolved.maxDepth = (l.value? files .maxDepth).getD (.num 64) ∧
      .bool resolved.debug = (l.value? files .debug).getD (.bool false) ∧
      .str resolved.level = (l.value? files .level).getD (.str "error")) ∧
    ∀ (other : Loader) (otherFiles : Files) (otherSettings : Settings), other.cache = none →
      (other.load otherFiles).2.result = .ok otherSettings →
      (∀ entry ∈ Entry.settings,
        otherFiles.value? other.userPath entry = files.value? l.userPath entry ∧
        otherFiles.value? other.projectPath entry = files.value? l.projectPath entry) →
      (other.resolve otherFiles).2.result = (l.resolve files).2.result := by
  have tells := (Settings.gives_load new loads).tells
  refine ⟨⟨settings.resolve, Loader.resolve_of_load loads, tells.maxDepth, tells.debug,
    tells.level⟩, ?_⟩
  intro other otherFiles otherSettings otherNew otherLoads agree
  rw [Loader.resolve_of_load otherLoads, Loader.resolve_of_load loads]
  congr 1
  refine (Settings.gives_load otherNew otherLoads).tells.eq tells fun entry isSetting => ?_
  obtain ⟨user, project⟩ := agree entry isSetting
  rw [Loader.value?, Loader.value?, user, project]

/-- The user sets everything, and the project sets one flag otherwise. -/
def plainPair : Files :=
  [("user.json",
      .text "\x7b\"layout\":\x7b\"maxDepth\":3,\"debug\":true\x7d,\"logging\":\x7b\"level\":\"info\"\x7d\x7d"),
    ("project.json", .text "\x7b\"layout\":\x7b\"debug\":false\x7d\x7d")]

/-- The same with the keys in another order, with keys that mean nothing and with an empty section. -/
def rearrangedPair : Files :=
  [("user.json",
      .text "\x7b\"logging\":\x7b\"level\":\"info\"\x7d,\"layout\":\x7b\"debug\":true,\"maxDepth\":3\x7d\x7d"),
    ("project.json",
      .text "\x7b\"theme\":null,\"logging\":\x7b\x7d,\"layout\":\x7b\"debug\":false,\"tabs\":[]\x7d\x7d")]

/-- What is inside a value without parts. -/
def Json.plain? : Json → Option (Float ⊕ Bool ⊕ String)
  | .num x => some (.inl x)
  | .bool b => some (.inr (.inl b))
  | .str text => some (.inr (.inr text))
  | _ => none

theorem Json.eq_of_plain? {v w : Option Json} (same : v.map plain? = w.map plain?)
    (plain : w.map plain? ≠ some none) : v = w := by
  cases v with
  | none =>
    cases w with
    | none => rfl
    | some w => cases same
  | some v =>
    cases w with
    | none => cases same
    | some w => cases v <;> cases w <;> simp_all [plain?]

/-- The files agree on the keys, and so both pairs resolve to what the project says about debugging
and to what the user says about the rest. -/
theorem rearrangedPair_resolves_alike :
    pairLoader.cache = none ∧
    ∃ plain rearranged, (pairLoader.load plainPair).2.result = .ok plain ∧
      (pairLoader.load rearrangedPair).2.result = .ok rearranged ∧
      (∀ entry ∈ Entry.settings,
        rearrangedPair.value? "user.json" entry = plainPair.value? "user.json" entry ∧
        rearrangedPair.value? "project.json" entry = plainPair.value? "project.json" entry) ∧
      (pairLoader.resolve rearrangedPair).2.result = .ok ⟨3, false, "info"⟩ := by
  have shown : ∀ path ∈ ["user.json", "project.json"], ∀ entry ∈ Entry.settings,
      (rearrangedPair.value? path entry).map Json.plain? =
        (plainPair.value? path entry).map Json.plain? ∧
      (plainPair.value? path entry).map Json.plain? ≠ some none := by
    decide +kernel
  have agree (entry : Entry) (isSetting : entry ∈ Entry.settings) :
      rearrangedPair.value? "user.json" entry = plainPair.value? "user.json" entry ∧
      rearrangedPair.value? "project.json" entry = plainPair.value? "project.json" entry := by
    obtain ⟨user, userPlain⟩ := shown "user.json" (by decide) entry isSetting
    obtain ⟨project, projectPlain⟩ := shown "project.json" (by decide) entry isSetting
    exact ⟨Json.eq_of_plain? user userPlain, Json.eq_of_plain? project projectPlain⟩
  have fine : (failure? (pairLoader.load plainPair).2.result).isNone = true ∧
      (failure? (pairLoader.load rearrangedPair).2.result).isNone = true := by decide +kernel
  obtain ⟨plain, loads⟩ := failure?_eq_none_iff.mp (Option.isNone_iff_eq_none.mp fine.1)
  obtain ⟨rearranged, alsoLoads⟩ := failure?_eq_none_iff.mp (Option.isNone_iff_eq_none.mp fine.2)
  have decided : (pairLoader.value? plainPair .maxDepth).map Json.plain? = some (some (.inl 3)) ∧
      (pairLoader.value? plainPair .debug).map Json.plain? = some (some (.inr (.inl false))) ∧
      (pairLoader.value? plainPair .level).map Json.plain? = some (some (.inr (.inr "info"))) := by
    decide +kernel
  have depthSet : pairLoader.value? plainPair .maxDepth = some (.num 3) :=
    Json.eq_of_plain? decided.1 (by simp [Json.plain?])
  have debugSet : pairLoader.value? plainPair .debug = some (.bool false) :=
    Json.eq_of_plain? decided.2.1 (by simp [Json.plain?])
  have levelSet : pairLoader.value? plainPair .level = some (.str "info") :=
    Json.eq_of_plain? decided.2.2 (by simp [Json.plain?])
  obtain ⟨⟨resolved, answer, maxDepth, debug, level⟩, alike⟩ :=
    settings_by_precedence pairLoader plainPair rfl plain loads
  refine ⟨rfl, plain, rearranged, loads, alsoLoads, agree, ?_⟩
  rw [alike pairLoader rearrangedPair rearranged rfl alsoLoads agree, answer]
  rw [depthSet] at maxDepth
  rw [debugSet] at debug
  rw [levelSet] at level
  cases resolved
  cases maxDepth
  cases debug
  cases level
  rfl

end Folio
