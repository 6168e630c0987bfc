import Folio.Proofs.Precedence

/-!
# What requests for settings are answered

A request is answered from the two files, as they are or as they were, and never from anything else:
each setting is what stands under its key in the file of the project, or else in that of the user, or
else the default. Which moment counts is told from the history of the session.

1. `Granted`, `Refused`: the answers that go with values under the keys, and with an unusable entry.
2. `AnsweredFrom`: the answer that files lead to.
3. `requests_answered`: what every request answers, logs and leaves behind.
-/

namespace Folio

open Settings Settings.FirstOffenceLemmas

namespace SettingsSession

/-- What a request is answered when these values stand under the keys. -/
inductive Granted (value? : Entry → Option Json) : Step → Answer → Prop
  | loaded {settings : Settings} (gives : settings.Gives value?) (same : Bool) :
    Granted value? .load (.loaded settings same)
  | resolved {settings : Resolved} (tells : settings.Tells value?) :
    Granted value? .resolve (.resolved settings)
  | applied {settings : Resolved} (tells : settings.Tells value?) (levels : Log.Registry) :
    Granted value? .apply (.applied settings levels)
  | laidOut {settings : Resolved} (tells : settings.Tells value?) (request : Request Float) :
    Granted value? (.layout request) (.laidOut (settings.configure request).observe)

/-- What a request is answered when this entry cannot be used. -/
inductive Refused (e : Settings.Invalid) : Step → Answer → Prop
  | notLoaded : Refused e .load (.failed e)
  | notResolved : Refused e .resolve (.failed e)
  | notApplied (levels : Log.Registry) : Refused e .apply (.notApplied e levels)
  | notLaidOut (request : Request Float) : Refused e (.layout request) (.failed e)

/-- `AnsweredFrom l files step answer`: this is the answer that the files lead to. It names the first
unusable entry of the user, or else that of the project, and there is none if all can be used. -/
structure AnsweredFrom (l : Loader) (files : Files) (step : Step) (answer : Answer) : Prop where
  granted : files.Inoffensive l.userPath → files.Inoffensive l.projectPath →
    Granted (l.value? files) step answer
  userRefused : ∀ e, files.FirstOffence l.userPath e → Refused e step answer
  projectRefused : ∀ e, files.Inoffensive l.userPath → files.FirstOffence l.projectPath e →
    Refused e step answer

theorem Computed.granted {settings : Settings} {value? : Entry → Option Json} {step : Step}
    {answer : Answer} (computed : Computed (.ok settings) step answer)
    (gives : settings.Gives value?) : Granted value? step answer := by
  cases computed with
  | loaded _ same => exact .loaded gives same
  | resolved => exact .resolved gives.tells
  | applied _ levels => exact .applied gives.tells levels
  | laidOut _ request => exact .laidOut gives.tells request

theorem Computed.refused {e : Settings.Invalid} {step : Step} {answer : Answer}
    (computed : Computed (.error e) step answer) : Refused e step answer := by
  cases computed with
  | notLoaded => exact .notLoaded
  | notResolved => exact .notResolved
  | notApplied _ levels => exact .notApplied levels
  | notLaidOut _ request => exact .notLaidOut request

theorem Computed.answeredFrom {l : Loader} {files : Files} {step : Step} {answer : Answer}
    (computed : Computed (l.reading files).result step answer) :
    AnsweredFrom l files step answer where
  granted userFine projectFine := by
    obtain ⟨settings, read⟩ := Loader.reading_of_inoffensive userFine projectFine
    have succeeds : (l.reading files).result = .ok settings := by rw [read]
    rw [succeeds] at computed
    exact computed.granted (gives_reading succeeds)
  userRefused e offence := by
    rw [Loader.reading_of_user_offence offence] at computed
    exact computed.refused
  projectRefused e userFine offence := by
    rw [Loader.reading_of_project_offence userFine offence] at computed
    exact computed.refused

/-- With nothing in the cache, a request is answered from the files as they are. -/
theorem answeredFrom_after {s : State} {steps : List Step} {step : Step}
    (empty : (stateAfter perform s steps).loader.cache = none) (request : step.requests = true) :
    AnsweredFrom s.loader (stateAfter perform s steps).files step
      (perform (stateAfter perform s steps) step).2.answer := by
  refine Computed.answeredFrom ?_
  rw [← reading_after s steps, ← Loader.load_of_empty empty]
  exact computed_perform request

/-- Every request that is granted is answered from what the files said when the first was granted
since the cache was cleared, and later ones log no warning of the loader. A request that is not
granted has no effect, and it and the next one are answered from the files as they are by then.
Applied settings reach every logger. -/
theorem requests_answered (s : State) (new : s.loader.cache = none) (steps : List Step)
    (step : Step) (request : step.requests = true) :
    (step.Succeeds (stateAfter perform s steps) →
      ∃ before first later, steps ++ [step] = before ++ first :: later ∧
        FirstSuccess s before first later ∧
        Granted (s.loader.value? (stateAfter perform s before).files) step
          (perform (stateAfter perform s steps) step).2.answer) ∧
    (∀ before first later, steps = before ++ first :: later → FirstSuccess s before first later →
      step.Succeeds (stateAfter perform s steps) ∧
      Granted (s.loader.value? (stateAfter perform s before).files) step
        (perform (stateAfter perform s steps) step).2.answer ∧
      ∀ entry ∈ (perform (stateAfter perform s steps) step).2.entries, entry.level = .warn →
        (∃ r, step = .layout r) ∧ entry.service ≠ .config) ∧
    (¬ step.Succeeds (stateAfter perform s steps) →
      AnsweredFrom s.loader (stateAfter perform s steps).files step
        (perform (stateAfter perform s steps) step).2.answer ∧
      (stateAfter perform s (steps ++ [step])).loader.cache = none ∧
      ∀ edits next, (∀ edit ∈ edits, edit.requests = false) → next.requests = true →
        AnsweredFrom s.loader (stateAfter perform s (steps ++ step :: edits)).files next
          (perform (stateAfter perform s (steps ++ step :: edits)) next).2.answer) ∧
    (step = .apply → ¬ step.Succeeds (stateAfter perform s steps) →
      (stateAfter perform s (steps ++ [step])).loggers = (stateAfter perform s steps).loggers ∧
      ∀ entry ∈ (perform (stateAfter perform s steps) step).2.entries,
        entry.message ≠ "Applied configuration") ∧
    (step = .apply → step.Succeeds (stateAfter perform s steps) → ∃ settings levels,
      (perform (stateAfter perform s steps) step).2.answer = .applied settings levels ∧
      (stateAfter perform s (steps ++ [step])).loggers.map (·.owner) =
        (stateAfter perform s steps).loggers.map (·.owner) ∧
      ∀ logger ∈ (stateAfter perform s (steps ++ [step])).loggers, logger.level = settings.level ∧
        ∀ transport ∈ logger.transports, transport.level = some settings.level) := by
  have ends : stateAfter perform s (steps ++ [step]) =
      (perform (stateAfter perform s steps) step).1 := stateAfter_append ..
  refine ⟨fun succeeds => ?_, ?_, fun fails => ?_, ?_, ?_⟩
  · obtain ⟨settings, cache, computed, _⟩ := succeeds.cache
    rw [← ends] at cache
    obtain ⟨before, first, later, split, success, read⟩ := (cache_eq_some_iff new).mp cache
    exact ⟨before, first, later, split, success, computed.granted (gives_reading read)⟩
  · rintro before first later rfl success
    obtain ⟨settings, read, cache⟩ := success.cache new
    have loads :=
      Loader.load_of_cached cache (stateAfter perform s (before ++ first :: later)).files
    have computed := computed_perform (s := stateAfter perform s (before ++ first :: later)) request
    rw [loads] at computed
    refine ⟨Step.succeeds_iff.mpr ⟨request, settings, by rw [loads]⟩,
      computed.granted (gives_reading read), fun entry logged warns => ?_⟩
    rcases entry_of_perform request logged with noticed | ⟨found, rfl⟩ | other
    · rw [loads] at noticed
      cases noticed
    · cases warns
    · exact other
  · have kept : step ≠ .clearCache := by
      rintro rfl
      cases request
    have empty := cache_of_not_succeeds request fails
    have still : (stateAfter perform s (steps ++ [step])).loader.cache = none := by
      rw [ends, cache_perform_of_not_succeeds kept fails, empty]
    refine ⟨answeredFrom_after empty request, still, fun edits next quiet asks => ?_⟩
    refine answeredFrom_after ?_ asks
    rw [List.append_cons, stateAfter_append]
    exact cache_after_of_no_requests still quiet
  · rintro rfl fails
    obtain ⟨unchanged, entries⟩ := apply_fails fails
    refine ⟨ends ▸ unchanged, fun entry logged => ?_⟩
    rw [entries] at logged
    obtain ⟨notice, noticed, rfl⟩ := List.mem_map.mp logged
    exact notice.message_ne_applied (Settings.ofFiles_notices noticed)
  · rintro rfl succeeds
    obtain ⟨settings, levels, answer, loggers⟩ := apply_succeeds succeeds
    rw [ends, loggers]
    exact ⟨settings, levels, answer, Log.Registry.owners_setLevel ..,
      fun logger => Log.Registry.level_of_mem_setLevel⟩

/-- The user sets a limit, and the project a level that is none. -/
def brokenProject : State where
  files :=
    [("user.json", .text "\x7b\"layout\":\x7b\"maxDepth\":3\x7d\x7d"),
      ("project.json", .text "\x7b\"logging\":\x7b\"level\":7\x7d\x7d")]
  loader := pairLoader
  loggers := SettingsSession.loggers

/-- A request fails, and the file is mended. -/
def mend : List Step :=
  [.load, .write "project.json" (.text "\x7b\"logging\":\x7b\"level\":\"info\"\x7d\x7d")]

/-- The file breaks again. -/
def breakAgain : Step := .write "project.json" (.text "\x7b\"layout\":[]\x7d")

/-- What stands under the keys in the mended files. -/
theorem mended_values : Resolved.Tells ⟨3, false, "info"⟩
    (brokenProject.loader.value? (stateAfter perform brokenProject mend).files) := by
  let value? := brokenProject.loader.value? (stateAfter perform brokenProject mend).files
  have shown : (value? .maxDepth).map Json.plain? = some (some (.inl 3)) ∧
      (value? .debug).map Json.plain? = none ∧
      (value? .level).map Json.plain? = some (some (.inr (.inr "info"))) := by
    decide +kernel
  have depthSet : value? .maxDepth = some (.num 3) :=
    Json.eq_of_plain? shown.1 (by simp [Json.plain?])
  have debugUnset : value? .debug = none := Option.map_eq_none_iff.mp shown.2.1
  have levelSet : value? .level = some (.str "info") :=
    Json.eq_of_plain? shown.2.2 (by simp [Json.plain?])
  refine ⟨?_, ?_, ?_⟩
  · exact (congrArg (Option.getD · (.num 64)) depthSet).symm
  · exact (congrArg (Option.getD · (.bool false)) debugUnset).symm
  · exact (congrArg (Option.getD · (.str "error")) levelSet).symm

theorem mend_firstSuccess : FirstSuccess brokenProject mend .resolve [breakAgain] where
  ungranted := (cache_eq_none_iff rfl).mp (Option.isNone_iff_eq_none.mp (by decide +kernel))
  succeeds := ⟨rfl, by decide +kernel⟩
  kept := by simp [breakAgain]

/-- The level is complained about, and no logger is touched. Once the file is mended, settings can be
applied even when it is broken again: the limit of the user and the level of the project. -/
theorem brokenProject_requests_answered :
    brokenProject.loader.cache = none ∧ Step.apply.requests = true ∧
    (failure? (brokenProject.loader.load brokenProject.files).2.result).map (·.key) =
      some "logging.level" ∧
    (stateAfter perform brokenProject [.apply]).loggers = brokenProject.loggers ∧
    FirstSuccess brokenProject mend .resolve [breakAgain] ∧
    ∃ levels,
      (perform (stateAfter perform brokenProject (mend ++ [.resolve, breakAgain])) .apply).2.answer =
        .applied ⟨3, false, "info"⟩ levels ∧
      ∀ logger ∈ (stateAfter perform brokenProject
          (mend ++ [.resolve, breakAgain] ++ [.apply])).loggers,
        logger.level = "info" := by
  have fails : ¬ Step.apply.Succeeds brokenProject := by
    have failure : (perform brokenProject .apply).2.answer.isFailure = true := by decide +kernel
    intro succeeds
    rw [succeeds.2] at failure
    cases failure
  obtain ⟨_, _, _, unchanged, _⟩ := requests_answered brokenProject rfl [] .apply rfl
  obtain ⟨_, later, _, _, applied⟩ :=
    requests_answered brokenProject rfl (mend ++ [.resolve, breakAgain]) .apply rfl
  obtain ⟨succeeds, granted, _⟩ := later mend .resolve [breakAgain] rfl mend_firstSuccess
  obtain ⟨settings, levels, answer, _, each⟩ := applied rfl succeeds
  have same : settings = ⟨3, false, "info"⟩ := by
    rw [answer] at granted
    cases granted with
    | applied tells => exact tells.eq mended_values fun _ _ => rfl
  subst same
  exact ⟨rfl, rfl, by decide +kernel, (unchanged rfl fails).1, mend_firstSuccess, levels, answer,
    fun logger member => (each logger member).1⟩

end SettingsSession

end Folio
