import Folio.Proofs.LoggerLevels
import Folio.Session.Settings
import Mathlib.Data.List.Induction

/-!
# What settings stem from

The loader answers with what the files said at the first request that succeeded since its cache was
cleared. Requests that failed before leave no trace, and neither does what happens to the files
afterwards.

1. `Step.Succeeds`, `FirstSuccess`: the requests of a history that count.
2. `cache_eq_none_iff`, `cache_eq_some_iff`: the cache after any history, told from the history.
3. `entry_of_perform`: what a request logs.
-/

namespace Folio

/-! ## The loader -/

namespace Loader

/-- What the two files of the loader say. -/
def reading (l : Loader) (files : Files) : Loaded Settings :=
  Settings.ofFiles files l.userPath l.projectPath

variable {l : Loader}

theorem load_of_cached {settings : Settings} (cached : l.cache = some settings) (files : Files) :
    l.load files = (l, ⟨[], .ok settings⟩) := by
  simp only [load, cached]

theorem load_of_empty (empty : l.cache = none) (files : Files) :
    (l.load files).2 = l.reading files := by
  simp only [load, empty]
  split <;> rfl

/-- The cache holds what the loader has just answered, and nothing if it has failed. -/
theorem cache_load (l : Loader) (files : Files) :
    (l.load files).1.cache = (l.load files).2.result.toOption := by
  cases cached : l.cache with
  | some settings => rw [load_of_cached cached, cached]; rfl
  | none =>
    simp only [load, cached]
    split
    · rename_i read
      rw [read]; rfl
    · rename_i read
      rw [read, cached]; rfl

theorem reading_load (l : Loader) (files : Files) : (l.load files).1.reading = l.reading := by
  simp only [load]
  split
  · rfl
  · split <;> rfl

end Loader

/-! ## What reading logs -/

/-- A message that starts with another letter is not that of applied settings. -/
theorem SettingsNotice.message_ne_applied {notice : SettingsNotice}
    (other : ∀ settings, notice ≠ .applied settings) :
    notice.entry.message ≠ "Applied configuration" := by
  intro same
  have first := congrArg (fun text : String => text.toList.head?) same
  cases notice with
  | applied settings => exact other settings rfl
  | unreadable | malformed | notAnObject => simp [SettingsNotice.entry] at first

theorem Settings.ofFile_notices {files : Files} {path : String} {notice : SettingsNotice}
    (noticed : notice ∈ (ofFile files path).notices) (settings : Resolved) :
    notice ≠ .applied settings := by
  rintro rfl
  revert noticed
  rw [ofFile]
  split
  · simp
  · simp
  · split <;> simp

theorem Settings.ofFiles_notices {files : Files} {userPath projectPath : String}
    {notice : SettingsNotice} (noticed : notice ∈ (ofFiles files userPath projectPath).notices)
    (settings : Resolved) : notice ≠ .applied settings := by
  rw [ofFiles] at noticed
  split at noticed
  · exact ofFile_notices noticed settings
  · rcases List.mem_append.mp noticed with user | project
    · exact ofFile_notices user settings
    · exact ofFile_notices project settings

namespace SettingsSession

/-! ## Single steps -/

/-- The steps that request settings from the loader. -/
def Step.requests : Step → Bool
  | .load | .resolve | .apply | .layout _ => true
  | .setLevel _ | .clearCache | .write _ _ | .remove _ => false

/-- What a request answers when the loader comes to a result. -/
inductive Computed : Except Settings.Invalid Settings → Step → Answer → Prop
  | loaded (settings : Settings) (same : Bool) :
    Computed (.ok settings) .load (.loaded settings same)
  | resolved (settings : Settings) :
    Computed (.ok settings) .resolve (.resolved settings.resolve)
  | applied (settings : Settings) (levels : Log.Registry) :
    Computed (.ok settings) .apply (.applied settings.resolve levels)
  | laidOut (settings : Settings) (request : Request Float) :
    Computed (.ok settings) (.layout request)
      (.laidOut (settings.resolve.configure request).observe)
  | notLoaded (why : Settings.Invalid) : Computed (.error why) .load (.failed why)
  | notResolved (why : Settings.Invalid) : Computed (.error why) .resolve (.failed why)
  | notApplied (why : Settings.Invalid) (levels : Log.Registry) :
    Computed (.error why) .apply (.notApplied why levels)
  | notLaidOut (why : Settings.Invalid) (request : Request Float) :
    Computed (.error why) (.layout request) (.failed why)

def Answer.isFailure : Answer → Bool
  | .failed _ | .notApplied _ _ => true
  | _ => false

/-- The step is a request and it is granted. -/
def Step.Succeeds (step : Step) (s : State) : Prop :=
  step.requests = true ∧ (perform s step).2.answer.isFailure = false

section

variable {s : State} {step : Step}

theorem computed_perform (request : step.requests = true) :
    Computed (s.loader.load s.files).2.result step (perform s step).2.answer := by
  rcases loads : s.loader.load s.files with ⟨loader, notices, result⟩
  cases step <;> cases request <;> cases result <;>
    simp only [perform, Loader.resolve, Loader.apply, loads, Except.map] <;> constructor

theorem loader_perform (request : step.requests = true) :
    (perform s step).1.loader = (s.loader.load s.files).1 := by
  rcases loads : s.loader.load s.files with ⟨loader, notices, result⟩
  cases step <;> cases request <;> cases result <;>
    simp only [perform, Loader.resolve, Loader.apply, loads, Except.map]

theorem loader_perform_of_not_requests (request : step.requests = false)
    (kept : step ≠ .clearCache) : (perform s step).1.loader = s.loader := by
  cases step with
  | load | resolve | apply | layout => cases request
  | clearCache => exact absurd rfl kept
  | setLevel | write | remove => rfl

theorem Step.succeeds_iff :
    step.Succeeds s ↔
      step.requests = true ∧ ∃ settings, (s.loader.load s.files).2.result = .ok settings := by
  refine and_congr_right fun request => ?_
  have computed := computed_perform (s := s) request
  revert computed
  generalize (s.loader.load s.files).2.result = result
  generalize (perform s step).2.answer = answer
  intro computed
  cases computed <;> simp [Answer.isFailure]

theorem reading_perform (s : State) (step : Step) :
    (perform s step).1.loader.reading = s.loader.reading := by
  cases request : step.requests with
  | true => rw [loader_perform request, Loader.reading_load]
  | false =>
    cases step with
    | clearCache => rfl
    | _ => rw [loader_perform_of_not_requests request (by simp)]

/-- A request that is granted keeps its settings in the cache. They are those that were there, or
else those that the files give. -/
theorem Step.Succeeds.cache (succeeds : step.Succeeds s) :
    ∃ settings, (perform s step).1.loader.cache = some settings ∧
      Computed (.ok settings) step (perform s step).2.answer ∧
      (s.loader.cache = some settings ∨
        s.loader.cache = none ∧ (s.loader.reading s.files).result = .ok settings) := by
  obtain ⟨request, settings, loads⟩ := Step.succeeds_iff.mp succeeds
  refine ⟨settings, ?_, loads ▸ computed_perform request, ?_⟩
  · rw [loader_perform request, Loader.cache_load, loads]
    rfl
  · cases cached : s.loader.cache with
    | none => exact .inr ⟨rfl, Loader.load_of_empty cached _ ▸ loads⟩
    | some kept =>
      rw [Loader.load_of_cached cached] at loads
      cases loads
      exact .inl rfl

/-- A request that is not granted finds the cache empty. -/
theorem cache_of_not_succeeds (request : step.requests = true) (fails : ¬ step.Succeeds s) :
    s.loader.cache = none := by
  by_contra cached
  obtain ⟨settings, cached⟩ := Option.ne_none_iff_exists'.mp cached
  exact fails (Step.succeeds_iff.mpr ⟨request, settings, by rw [Loader.load_of_cached cached]⟩)

/-- Apart from granted requests, only clearing changes the cache. -/
theorem cache_perform_of_not_succeeds (kept : step ≠ .clearCache) (fails : ¬ step.Succeeds s) :
    (perform s step).1.loader.cache = s.loader.cache := by
  cases request : step.requests with
  | false => rw [loader_perform_of_not_requests request kept]
  | true =>
    have empty := cache_of_not_succeeds request fails
    rw [loader_perform request, Loader.cache_load, empty]
    cases loads : (s.loader.load s.files).2.result with
    | error why => rfl
    | ok settings => exact absurd (Step.succeeds_iff.mpr ⟨request, settings, loads⟩) fails

end

/-! ## Histories -/

/-- No request has been granted since the cache was cleared. -/
def Ungranted (s : State) (steps : List Step) : Prop :=
  ∀ earlier step later, steps = earlier ++ step :: later → .clearCache ∉ later →
    ¬ step.Succeeds (stateAfter perform s earlier)

/-- After the steps `before` comes the first request that is granted since the cache was cleared,
and it is not cleared again up to the end of `later`. -/
structure FirstSuccess (s : State) (before : List Step) (step : Step) (later : List Step) :
    Prop where
  ungranted : Ungranted s before
  succeeds : step.Succeeds (stateAfter perform s before)
  kept : .clearCache ∉ later

section

variable {s : State} {steps : List Step}

theorem reading_after (s : State) (steps : List Step) :
    (stateAfter perform s steps).loader.reading = s.loader.reading := by
  induction steps generalizing s with
  | nil => rfl
  | cons step rest ih => rw [stateAfter_cons, ih, reading_perform]

theorem ungranted_concat {step : Step} :
    Ungranted s (steps ++ [step]) ↔
      ¬ step.Succeeds (stateAfter perform s steps) ∧ (step = .clearCache ∨ Ungranted s steps) := by
  constructor
  · intro ungranted
    refine ⟨ungranted steps step [] rfl (by simp), ?_⟩
    by_cases clears : step = .clearCache
    · exact .inl clears
    · refine .inr fun earlier prior later split kept => ?_
      exact ungranted earlier prior (later ++ [step]) (by simp [split])
        (by simp [kept, Ne.symm clears])
  · rintro ⟨fails, clears⟩ earlier prior later split kept
    -- The step in question is the last one, or stands before it.
    rcases List.eq_nil_or_concat later with rfl | ⟨middle, last, rfl⟩
    · obtain ⟨rfl, same⟩ := List.append_inj' split rfl
      cases same
      exact fails
    · rw [List.concat_eq_append] at split kept
      rw [← List.cons_append, ← List.append_assoc] at split
      obtain ⟨rfl, same⟩ := List.append_inj' split rfl
      cases same
      rw [List.mem_append, List.mem_singleton, not_or] at kept
      rcases clears with rfl | ungranted
      · exact absurd rfl kept.2
      · exact ungranted earlier prior middle rfl kept.1

/-- What is in the cache stays there until it is cleared. -/
theorem cache_after_of_kept {settings : Settings} (cached : s.loader.cache = some settings)
    (kept : .clearCache ∉ steps) : (stateAfter perform s steps).loader.cache = some settings := by
  induction steps generalizing s with
  | nil => exact cached
  | cons step rest ih =>
    rw [List.mem_cons, not_or] at kept
    refine ih ?_ kept.2
    by_cases succeeds : step.Succeeds s
    · obtain ⟨found, cache, _, same | ⟨empty, _⟩⟩ := succeeds.cache
      · rw [cache, ← same, cached]
      · rw [empty] at cached
        cases cached
    · rw [cache_perform_of_not_succeeds (Ne.symm kept.1) succeeds, cached]

/-- The cache is empty exactly as long as no request has been granted. -/
theorem cache_eq_none_iff (new : s.loader.cache = none) :
    (stateAfter perform s steps).loader.cache = none ↔ Ungranted s steps := by
  induction steps using List.reverseRecOn with
  | nil =>
    refine iff_of_true new fun earlier step later split => ?_
    simp at split
  | append_singleton steps step ih =>
    rw [stateAfter_append, ungranted_concat, ← ih]
    by_cases succeeds : step.Succeeds (stateAfter perform s steps)
    · obtain ⟨settings, cache, _⟩ := succeeds.cache
      simp [cache, succeeds]
    · by_cases clears : step = .clearCache
      · subst clears
        exact iff_of_true rfl ⟨succeeds, .inl rfl⟩
      · simp [cache_perform_of_not_succeeds clears succeeds, succeeds, clears]

theorem FirstSuccess.cache {before later : List Step} {step : Step} (new : s.loader.cache = none)
    (first : FirstSuccess s before step later) :
    ∃ settings, (s.loader.reading (stateAfter perform s before).files).result = .ok settings ∧
      (stateAfter perform s (before ++ step :: later)).loader.cache = some settings := by
  have empty := (cache_eq_none_iff new).mpr first.ungranted
  obtain ⟨settings, cache, _, same | ⟨_, read⟩⟩ := first.succeeds.cache
  · rw [empty] at same
    cases same
  · rw [reading_after] at read
    rw [stateAfter_append, stateAfter_cons]
    exact ⟨settings, read, cache_after_of_kept cache first.kept⟩

/-- The cache holds what the files said when the first request was granted. -/
theorem cache_eq_some_iff (new : s.loader.cache = none) {settings : Settings} :
    (stateAfter perform s steps).loader.cache = some settings ↔
      ∃ before step later, steps = before ++ step :: later ∧ FirstSuccess s before step later ∧
        (s.loader.reading (stateAfter perform s before).files).result = .ok settings := by
  constructor
  · intro cached
    induction steps using List.reverseRecOn with
    | nil =>
      rw [stateAfter_nil, new] at cached
      cases cached
    | append_singleton steps step ih =>
      have extended (cached : (stateAfter perform s steps).loader.cache = some settings)
          (keeps : step ≠ .clearCache) :
          ∃ before first later, steps ++ [step] = before ++ first :: later ∧
            FirstSuccess s before first later ∧
            (s.loader.reading (stateAfter perform s before).files).result = .ok settings := by
        obtain ⟨before, first, later, rfl, ⟨ungranted, succeeds, kept⟩, read⟩ := ih cached
        exact ⟨before, first, later ++ [step], by simp, ⟨ungranted, succeeds,
          by simp [kept, Ne.symm keeps]⟩, read⟩
      rw [stateAfter_append, stateAfter_cons, stateAfter_nil] at cached
      by_cases succeeds : step.Succeeds (stateAfter perform s steps)
      · obtain ⟨found, cache, _, origin⟩ := succeeds.cache
        rw [cached] at cache
        cases cache
        rcases origin with same | ⟨empty, read⟩
        · refine extended same ?_
          rintro rfl
          cases succeeds.1
        · rw [reading_after] at read
          exact ⟨steps, step, [], rfl, ⟨(cache_eq_none_iff new).mp empty, succeeds, by simp⟩, read⟩
      · by_cases clears : step = .clearCache
        · subst clears
          cases cached
        · rw [cache_perform_of_not_succeeds clears succeeds] at cached
          exact extended cached clears
  · rintro ⟨before, step, later, rfl, first, read⟩
    obtain ⟨found, said, cache⟩ := first.cache new
    rw [read] at said
    cases said
    exact cache

theorem cache_after_of_no_requests (empty : s.loader.cache = none)
    (quiet : ∀ step ∈ steps, step.requests = false) :
    (stateAfter perform s steps).loader.cache = none := by
  refine (cache_eq_none_iff empty).mpr fun earlier step later split _ succeeds => ?_
  have silent := quiet step (by simp [split])
  rw [succeeds.1] at silent
  cases silent

end

/-! ## What is logged -/

theorem service_of_observation {o : Observation Float} {entry : Log.Entry}
    (logged : entry ∈ o.entries) : entry.service ≠ .config := by
  rcases List.mem_append.mp logged with copied | noted
  · obtain ⟨⟨_, breach, _⟩, _, rfl⟩ := List.mem_map.mp copied
    cases breach <;> simp [BadCopy.entry]
  · obtain ⟨notice, _, rfl⟩ := List.mem_map.mp noted
    cases notice <;> simp [LayoutNotice.entry]

section

variable {s : State} {step : Step}

/-- The loader logs what it noticed, and applied settings are logged besides. All else comes from a
layout, and does not concern the settings. -/
theorem entry_of_perform (request : step.requests = true) {entry : Log.Entry}
    (logged : entry ∈ (perform s step).2.entries) :
    entry ∈ (s.loader.load s.files).2.notices.map SettingsNotice.entry ∨
    (∃ settings, entry = (SettingsNotice.applied settings).entry) ∨
    (∃ r, step = .layout r) ∧ entry.service ≠ .config := by
  revert logged
  rcases loads : s.loader.load s.files with ⟨loader, notices, result⟩
  cases step with
  | setLevel | clearCache | write | remove => cases request
  | load =>
    cases result <;> simp only [perform, loads] <;> exact .inl
  | resolve =>
    cases result <;> simp only [perform, Loader.resolve, loads, Except.map] <;> exact .inl
  | apply =>
    cases result with
    | error why =>
      simp only [perform, Loader.apply, Loader.resolve, loads, Except.map]
      exact .inl
    | ok settings =>
      simp only [perform, Loader.apply, Loader.resolve, loads, Except.map, List.map_append]
      intro logged
      rcases List.mem_append.mp logged with noticed | applied
      · exact .inl noticed
      · exact .inr (.inl ⟨settings.resolve, List.mem_singleton.mp applied⟩)
  | layout r =>
    cases result with
    | error why =>
      simp only [perform, Loader.resolve, loads, Except.map]
      exact .inl
    | ok settings =>
      simp only [perform, Loader.resolve, loads, Except.map]
      intro logged
      exact .inr (.inr ⟨⟨r, rfl⟩, service_of_observation logged⟩)

/-- Settings that are not applied change no level and are not logged. -/
theorem apply_fails (fails : ¬ Step.apply.Succeeds s) :
    (perform s .apply).1.loggers = s.loggers ∧
    (perform s .apply).2.entries =
      (s.loader.reading s.files).notices.map SettingsNotice.entry := by
  have empty := cache_of_not_succeeds rfl fails
  rw [← Loader.load_of_empty empty]
  rw [Step.succeeds_iff] at fails
  rcases loads : s.loader.load s.files with ⟨loader, notices, result⟩
  rw [loads] at fails
  cases result with
  | ok settings => exact absurd ⟨rfl, settings, rfl⟩ fails
  | error why =>
    simp only [perform, Loader.apply, Loader.resolve, loads, Except.map, and_self]

/-- Settings that are applied give every logger their level. -/
theorem apply_succeeds (succeeds : Step.apply.Succeeds s) :
    ∃ settings levels, (perform s .apply).2.answer = .applied settings levels ∧
      (perform s .apply).1.loggers = s.loggers.setLevel settings.level := by
  rw [Step.succeeds_iff] at succeeds
  rcases loads : s.loader.load s.files with ⟨loader, notices, result⟩
  rw [loads] at succeeds
  obtain ⟨_, settings, rfl⟩ := succeeds
  simp only [perform, Loader.apply, Loader.resolve, loads, Except.map]
  exact ⟨settings.resolve, _, rfl, rfl⟩

end

end SettingsSession

end Folio
