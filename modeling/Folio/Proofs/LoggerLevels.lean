import Folio.Session.Logging
import Folio.Session.Registers
import Mathlib.Data.List.Nodup

/-!
# The levels of loggers

A logger is made when it is first asked for and takes its level from the environment of that moment.
From then on it is found again at its place, and nothing changes it but a level given to all loggers.

1. `Log.Registry.find?_obtain`, `Log.Registry.find?_setLevel`: a registry seen from one of its owners.
2. `LoggingSession.find?_perform_of_asks`, `LoggingSession.find?_perform_of_other`: what a step does to
   the logger of one owner.
3. `LoggingSession.find?_after_of_found`, `LoggingSession.FirstAsked.find?_after`: the logger of an owner
   after any history, told from the history.
4. `LoggingSession.loggers_follow_history`: what follows for the services.
-/

namespace Folio

namespace Log

/-! ## Loggers -/

namespace Logger

/-- The logger after a level has been given to it, if one has. -/
def relevel (l : Logger) (level? : Option String) : Logger := level?.elim l l.setLevel

/-- Of two levels given one after the other the later one counts. -/
theorem relevel_relevel (l : Logger) (earlier later : Option String) :
    (l.relevel earlier).relevel later = l.relevel (later.or earlier) := by
  cases later with
  | none => rfl
  | some level =>
    cases earlier with
    | none => rfl
    | some other => simp [relevel, setLevel]

theorem owner_relevel (l : Logger) (level? : Option String) : (l.relevel level?).owner = l.owner := by
  cases level? <;> rfl

/-- The logger has a level, and so has each of its outputs: the same. -/
def InStep (l : Logger) (level : String) : Prop :=
  l.level = level ∧ ∀ t ∈ l.transports, t.level = some level

theorem inStep_create {e : Environment} {owner : Owner} {level : String}
    (resolved : e.resolveLevel owner.fallback? = some level) : (create e owner).InStep level := by
  unfold create
  rw [resolved]
  refine ⟨rfl, fun t output => ?_⟩
  rcases List.mem_append.mp output with console | file
  · split at console
    · rw [List.mem_singleton.mp console]
    · cases console
  · obtain ⟨path, _, rfl⟩ := List.mem_map.mp file
    rfl

theorem inStep_setLevel (l : Logger) (level : String) : (l.setLevel level).InStep level := by
  refine ⟨rfl, fun t output => ?_⟩
  obtain ⟨old, _, rfl⟩ := List.mem_map.mp output
  rfl

theorem InStep.relevel {l : Logger} {level : String} (inStep : l.InStep level)
    (level? : Option String) : (l.relevel level?).InStep (level?.getD level) := by
  cases level? with
  | none => exact inStep
  | some given => exact l.inStep_setLevel given

end Logger

/-! ## Registries -/

namespace Registry

variable {r : Registry} {e : Environment} {owner other : Owner} {l : Logger}

theorem find?_setLevel (r : Registry) (level : String) (owner : Owner) :
    (r.setLevel level).find? owner = (r.find? owner).map (·.setLevel level) := by
  unfold setLevel find?
  rw [List.find?_map]
  rfl

theorem obtain_of_found (found : r.find? owner = some l) (e : Environment) :
    r.obtain e owner = (r, l) := by
  simp only [obtain, found]

theorem obtain_of_missing (missing : r.find? owner = none) (e : Environment) :
    r.obtain e owner = (r ++ [Logger.create e owner], Logger.create e owner) := by
  simp only [obtain, missing]

theorem find?_concat (r : Registry) (l : Logger) (owner : Owner) :
    find? (r ++ [l]) owner = (r.find? owner).or (if l.owner = owner then some l else none) := by
  unfold find?
  rw [List.find?_append]
  by_cases same : l.owner = owner
  · simp [same]
  · simp [same]

/-- The logger that is answered is the one that is found from then on. -/
theorem find?_obtain (r : Registry) (e : Environment) (owner : Owner) :
    (r.obtain e owner).1.find? owner = some ((r.find? owner).getD (Logger.create e owner)) ∧
    (r.obtain e owner).2 = (r.find? owner).getD (Logger.create e owner) := by
  cases found : r.find? owner with
  | some l =>
    rw [obtain_of_found found]
    exact ⟨found, rfl⟩
  | none =>
    rw [obtain_of_missing found]
    have new : (Logger.create e owner).owner = owner := rfl
    rw [find?_concat, found, if_pos new]
    exact ⟨rfl, rfl⟩

theorem find?_obtain_other (distinct : other ≠ owner) :
    (r.obtain e owner).1.find? other = r.find? other := by
  cases found : r.find? owner with
  | some l => rw [obtain_of_found found]
  | none =>
    rw [obtain_of_missing found]
    have different : ¬ (Logger.create e owner).owner = other := Ne.symm distinct
    rw [find?_concat, if_neg different, Option.or_none]

theorem owners_setLevel (r : Registry) (level : String) :
    (r.setLevel level).map (·.owner) = r.map (·.owner) := by
  rw [setLevel, List.map_map]
  rfl

theorem level_of_mem_setLevel {level : String} (member : l ∈ r.setLevel level) :
    l.level = level ∧ ∀ t ∈ l.transports, t.level = some level := by
  obtain ⟨before, _, rfl⟩ := List.mem_map.mp member
  exact before.inStep_setLevel level

theorem find?_eq_none_iff : r.find? owner = none ↔ owner ∉ r.map (·.owner) := by
  simp [find?]

/-- Loggers keep their places: new ones come behind those there are. -/
theorem owners_obtain_isPrefix (r : Registry) (e : Environment) (owner : Owner) :
    r.map (·.owner) <+: (r.obtain e owner).1.map (·.owner) := by
  cases found : r.find? owner with
  | some l => simp only [obtain_of_found found, List.prefix_rfl]
  | none =>
    rw [obtain_of_missing found, List.map_append]
    exact List.prefix_append _ _

/-- No owner has two loggers. -/
def Distinct (r : Registry) : Prop := (r.map (·.owner)).Nodup

theorem Distinct.obtain (distinct : r.Distinct) (e : Environment) (owner : Owner) :
    (r.obtain e owner).1.Distinct := by
  cases found : r.find? owner with
  | some l =>
    rw [obtain_of_found found]
    exact distinct
  | none =>
    rw [obtain_of_missing found]
    unfold Distinct
    rw [List.map_append, List.map_singleton, ← List.concat_eq_append]
    exact List.Nodup.concat (find?_eq_none_iff.mp found) distinct

theorem Distinct.setLevel (distinct : r.Distinct) (level : String) : (r.setLevel level).Distinct := by
  unfold Distinct
  rw [owners_setLevel]
  exact distinct

/-- In such a registry every logger is found. -/
theorem Distinct.find?_of_mem (distinct : r.Distinct) (member : l ∈ r) :
    r.find? l.owner = some l := by
  cases found : r.find? l.owner with
  | none => exact absurd (List.mem_map_of_mem member) (find?_eq_none_iff.mp found)
  | some other =>
    have same : other.owner = l.owner := by simpa using List.find?_some found
    have held : other ∈ r := List.mem_of_find?_eq_some found
    rw [List.inj_on_of_nodup_map distinct held member same]

/-- Where owners have kept their places, a logger is found again where it was. -/
theorem Distinct.getElem?_of_isPrefix {later : Registry} (distinct : later.Distinct)
    (kept : r.map (·.owner) <+: later.map (·.owner)) {place : Nat} (here : r[place]? = some l) :
    later[place]? = later.find? l.owner := by
  have owned : (later.map (·.owner))[place]? = some l.owner := by
    obtain ⟨new, all⟩ := kept
    have inside : place < (r.map (·.owner)).length := by
      rw [List.length_map]
      exact (List.getElem?_eq_some_iff.mp here).1
    rw [← all, List.getElem?_append_left inside, List.getElem?_map, here]
    rfl
  rw [List.getElem?_map] at owned
  obtain ⟨found, there, same⟩ := Option.map_eq_some_iff.mp owned
  rw [there, ← same, distinct.find?_of_mem (List.mem_of_getElem? there)]

end Registry

end Log

namespace LoggingSession

open Log

/-! ## Single steps -/

/-- Whose logger a step asks for, if it does. -/
def Step.owner? : Step → Option Owner
  | .create name => Owner.ofName? name
  | .log name _ _ _ => Owner.ofName? name
  | .environment _ | .setLevel _ => none

/-- The level that a step gives to all loggers, if it does. -/
def Step.level? : Step → Option String
  | .setLevel level => some level
  | .environment _ | .create _ | .log _ _ _ _ => none

/-- The environment that a step brings, if it does. -/
def Step.environment? : Step → Option Environment
  | .environment e => some e
  | .create _ | .setLevel _ | .log _ _ _ _ => none

section

variable {s : State} {step : Step} {owner : Owner}

theorem perform_create {name : String} (known : Owner.ofName? name = some owner) :
    perform s (.create name) =
      ({ s with registry := (s.registry.obtain s.environment owner).1 },
        .logger (s.registry.obtain s.environment owner).2 (s.registry.find? owner).isSome) := by
  simp only [perform, known]

/-- A step that asks for a logger obtains it, and leaves the environment alone. -/
theorem perform_of_asks (asks : step.owner? = some owner) :
    (perform s step).1.registry = (s.registry.obtain s.environment owner).1 ∧
    (perform s step).1.environment = s.environment := by
  cases step with
  | environment e => cases asks
  | setLevel level => cases asks
  | create name =>
    rw [perform_create asks]
    exact ⟨rfl, rfl⟩
  | log name level message fields =>
    have known : Owner.ofName? name = some owner := asks
    simp only [perform, known]
    split <;> exact ⟨rfl, rfl⟩

/-- A step that asks for none at most gives the loggers a level or brings an environment. -/
theorem perform_of_not_asks (quiet : step.owner? = none) :
    (perform s step).1.registry = step.level?.elim s.registry s.registry.setLevel ∧
    (perform s step).1.environment = step.environment?.getD s.environment := by
  cases step with
  | environment e => exact ⟨rfl, rfl⟩
  | setLevel level => exact ⟨rfl, rfl⟩
  | create name =>
    have unknown : Owner.ofName? name = none := quiet
    simp only [perform, unknown]
    exact ⟨rfl, rfl⟩
  | log name level message fields =>
    have unknown : Owner.ofName? name = none := quiet
    simp only [perform, unknown]
    exact ⟨rfl, rfl⟩

/-- A step that asks for a logger does nothing else. -/
theorem only_asks (asks : step.owner? = some owner) :
    step.level? = none ∧ step.environment? = none := by
  cases step with
  | environment e => cases asks
  | setLevel level => cases asks
  | create | log => exact ⟨rfl, rfl⟩

theorem environment_perform (s : State) (step : Step) :
    (perform s step).1.environment = step.environment?.getD s.environment := by
  cases asked : step.owner? with
  | some owner => rw [(perform_of_asks asked).2, (only_asks asked).2, Option.getD_none]
  | none => exact (perform_of_not_asks asked).2

theorem owners_perform_isPrefix (s : State) (step : Step) :
    s.registry.map (·.owner) <+: (perform s step).1.registry.map (·.owner) := by
  cases asked : step.owner? with
  | some owner =>
    rw [(perform_of_asks asked).1]
    exact s.registry.owners_obtain_isPrefix s.environment owner
  | none =>
    rw [(perform_of_not_asks asked).1]
    cases step.level? with
    | none => exact List.prefix_rfl
    | some level => exact (s.registry.owners_setLevel level).symm ▸ List.prefix_rfl

theorem distinct_perform (distinct : s.registry.Distinct) (step : Step) :
    (perform s step).1.registry.Distinct := by
  cases asked : step.owner? with
  | some owner =>
    rw [(perform_of_asks asked).1]
    exact distinct.obtain s.environment owner
  | none =>
    rw [(perform_of_not_asks asked).1]
    cases step.level? with
    | none => exact distinct
    | some level => exact distinct.setLevel level

theorem find?_perform_of_asks (asks : step.owner? = some owner) :
    (perform s step).1.registry.find? owner =
      some ((s.registry.find? owner).getD (Logger.create s.environment owner)) := by
  rw [(perform_of_asks asks).1]
  exact (s.registry.find?_obtain s.environment owner).1

/-- A step that does not ask for the logger at most gives it a level. -/
theorem find?_perform_of_other (other : step.owner? ≠ some owner) :
    (perform s step).1.registry.find? owner =
      (s.registry.find? owner).map (·.relevel step.level?) := by
  cases asked : step.owner? with
  | some asker =>
    have distinct : owner ≠ asker := by
      rintro rfl
      exact other asked
    rw [(perform_of_asks asked).1, Registry.find?_obtain_other distinct, (only_asks asked).1]
    exact Option.map_id'.symm
  | none =>
    rw [(perform_of_not_asks asked).1]
    cases step.level? with
    | none => exact Option.map_id'.symm
    | some level => exact s.registry.find?_setLevel level owner

end

/-! ## Histories -/

/-- The level that was given to all loggers last. -/
def lastLevel? (steps : List Step) : Option String := (steps.filterMap Step.level?).getLast?

/-- The environment that was brought last, or `e` if none was. -/
def lastEnvironment (e : Environment) (steps : List Step) : Environment :=
  (steps.filterMap Step.environment?).getLast?.getD e

/-- After the steps `before` the logger of the owner is asked for, and not earlier. -/
structure FirstAsked (owner : Owner) (before : List Step) (ask : Step) : Prop where
  unasked : ∀ step ∈ before, step.owner? ≠ some owner
  asks : ask.owner? = some owner

section

variable {s : State} {steps : List Step} {owner : Owner}

theorem lastLevel?_cons (step : Step) (steps : List Step) :
    lastLevel? (step :: steps) = (lastLevel? steps).or step.level? := by
  unfold lastLevel?
  cases given : step.level? with
  | none => rw [List.filterMap_cons_none given, Option.or_none]
  | some level =>
    rw [List.filterMap_cons_some given, List.getLast?_cons]
    cases (steps.filterMap Step.level?).getLast? <;> rfl

theorem environment_after (s : State) (steps : List Step) :
    (stateAfter perform s steps).environment = lastEnvironment s.environment steps := by
  induction steps generalizing s with
  | nil => rfl
  | cons step rest ih =>
    rw [stateAfter_cons, ih, environment_perform]
    unfold lastEnvironment
    cases brought : step.environment? with
    | none => rw [List.filterMap_cons_none brought, Option.getD_none]
    | some e =>
      rw [List.filterMap_cons_some brought, List.getLast?_cons]
      cases (rest.filterMap Step.environment?).getLast? <;> rfl

theorem owners_after_isPrefix (s : State) (steps : List Step) :
    s.registry.map (·.owner) <+: (stateAfter perform s steps).registry.map (·.owner) := by
  induction steps generalizing s with
  | nil => exact List.prefix_rfl
  | cons step rest ih => exact (owners_perform_isPrefix s step).trans (ih _)

theorem distinct_after (distinct : s.registry.Distinct) (steps : List Step) :
    (stateAfter perform s steps).registry.Distinct := by
  induction steps generalizing s with
  | nil => exact distinct
  | cons step rest ih => exact ih (distinct_perform distinct step)

/-- A logger that is there only follows the levels given to all. -/
theorem find?_after_of_found {l : Logger} (found : s.registry.find? owner = some l)
    (steps : List Step) :
    (stateAfter perform s steps).registry.find? owner = some (l.relevel (lastLevel? steps)) := by
  induction steps generalizing s l with
  | nil => exact found
  | cons step rest ih =>
    rw [stateAfter_cons, lastLevel?_cons, ← Logger.relevel_relevel]
    refine ih ?_
    by_cases asks : step.owner? = some owner
    · rw [find?_perform_of_asks asks, found, (only_asks asks).1]
      rfl
    · rw [find?_perform_of_other asks, found]
      rfl

theorem find?_after_of_unasked (missing : s.registry.find? owner = none)
    (unasked : ∀ step ∈ steps, step.owner? ≠ some owner) :
    (stateAfter perform s steps).registry.find? owner = none := by
  induction steps generalizing s with
  | nil => exact missing
  | cons step rest ih =>
    rw [List.forall_mem_cons] at unasked
    refine ih ?_ unasked.2
    rw [find?_perform_of_other unasked.1, missing]
    rfl

/-- The logger as the history has made it: from the environment at the first request, with the level
given last since then. -/
theorem FirstAsked.find?_after {before : List Step} {ask : Step} (first : FirstAsked owner before ask)
    (missing : s.registry.find? owner = none) (behind : List Step) :
    (stateAfter perform s (before ++ ask :: behind)).registry.find? owner =
      some ((Logger.create (lastEnvironment s.environment before) owner).relevel
        (lastLevel? behind)) := by
  have absent := find?_after_of_unasked missing first.unasked
  have made := find?_perform_of_asks (s := stateAfter perform s before) first.asks
  rw [absent, environment_after, Option.getD_none] at made
  rw [stateAfter_append, stateAfter_cons]
  exact find?_after_of_found made behind

/-- Where some step asks for the logger, one is the first to do so. -/
theorem exists_firstAsked (asked : ∃ step ∈ steps, step.owner? = some owner) :
    ∃ before ask behind, steps = before ++ ask :: behind ∧ FirstAsked owner before ask := by
  have found : (steps.find? fun step => step.owner? == some owner).isSome = true := by
    simpa using asked
  obtain ⟨ask, found⟩ := Option.isSome_iff_exists.mp found
  obtain ⟨asks, before, behind, split, unasked⟩ := List.find?_eq_some_iff_append.mp found
  refine ⟨before, ask, behind, split, fun step earlier => ?_, by simpa using asks⟩
  simpa using unasked step earlier

/-- Giving levels brings no environment. -/
theorem lastEnvironment_filter (e : Environment) (steps : List Step) :
    lastEnvironment e (steps.filter (·.level?.isNone)) = lastEnvironment e steps := by
  have same : (fun step : Step => if step.level?.isNone = true then step.environment? else none) =
      Step.environment? := by
    funext step
    cases step <;> rfl
  unfold lastEnvironment
  rw [List.filterMap_filter, same]

end

/-! ## Services -/

theorem ofName?_service (service : Service) : Owner.ofName? service.name = some (.service service) := by
  cases service <;> decide

/-- A service always has a level of its own. -/
theorem resolveLevel_service (e : Environment) (service : Service) :
    ∃ level, e.resolveLevel (some service.fallback) = some level := by
  refine Option.isSome_iff_exists.mp ?_
  unfold Environment.resolveLevel
  split
  · rfl
  · split
    · rfl
    · split <;> rfl

/-- Asking for the logger of a service gives the one at a place. Where it existed before, asking
changes nothing. -/
structure HandsOut (s : State) (service : Service) (place : Nat) (existed : Bool) : Prop where
  answered : ∃ l, (perform s (.create service.name)).2 = .logger l existed ∧
    (perform s (.create service.name)).1.registry[place]? = some l ∧ l.owner = .service service
  kept : existed = true → (perform s (.create service.name)).1 = s

theorem perform_create_of_found {s : State} {service : Service} {l : Logger}
    (found : s.registry.find? (.service service) = some l) :
    perform s (.create service.name) = (s, .logger l true) := by
  rw [perform_create (ofName?_service service), Registry.obtain_of_found found, found]
  rfl

/-- The place of a logger is settled when it is first handed out. -/
theorem exists_handsOut {s : State} (distinct : s.registry.Distinct) (service : Service) :
    ∃ place, HandsOut s service place (s.registry.find? (.service service)).isSome ∧
      ∀ more,
        HandsOut (stateAfter perform (perform s (.create service.name)).1 more) service place true := by
  have asks : (Step.create service.name).owner? = some (.service service) := ofName?_service service
  have made := find?_perform_of_asks (s := s) asks
  have owned := List.find?_some made
  rw [beq_iff_eq] at owned
  obtain ⟨place, here⟩ := List.getElem?_of_mem (List.mem_of_find?_eq_some made)
  refine ⟨place, ⟨⟨_, ?_, here, owned⟩, fun existed => ?_⟩, fun more => ?_⟩
  · rw [perform_create asks]
    exact congrArg (Answer.logger · _) (s.registry.find?_obtain s.environment _).2
  · obtain ⟨l, found⟩ := Option.isSome_iff_exists.mp existed
    rw [perform_create_of_found found]
  · have found := find?_after_of_found made more
    have there := (distinct_after (distinct_perform distinct _) more).getElem?_of_isPrefix
      (owners_after_isPrefix _ more) here
    rw [owned, found] at there
    have again := perform_create_of_found found
    refine ⟨⟨_, congrArg Prod.snd again, ?_, ?_⟩, fun _ => congrArg Prod.fst again⟩
    · rw [again]
      exact there
    · rw [Logger.owner_relevel, owned]

section

variable (e : Environment) (steps : List Step)

theorem distinct_start : (start e).registry.Distinct := List.nodup_nil

theorem FirstAsked.find?_after_start {owner : Owner} {before : List Step} {ask : Step}
    (first : FirstAsked owner before ask) (behind : List Step) :
    (stateAfter perform (start e) (before ++ ask :: behind)).registry.find? owner =
      some ((Logger.create (lastEnvironment e before) owner).relevel (lastLevel? behind)) :=
  first.find?_after rfl behind

/-- Loggers are there once they have been asked for. -/
theorem isSome_find?_after_start (owner : Owner) :
    ((stateAfter perform (start e) steps).registry.find? owner).isSome =
      steps.any fun step => step.owner? == some owner := by
  by_cases asked : ∃ step ∈ steps, step.owner? = some owner
  · have some : (steps.any fun step => step.owner? == some owner) = true := by simpa using asked
    obtain ⟨before, ask, behind, rfl, first⟩ := exists_firstAsked asked
    rw [first.find?_after_start e, some]
    rfl
  · have none : (steps.any fun step => step.owner? == some owner) = false := by simpa using asked
    have unasked : ∀ step ∈ steps, step.owner? ≠ some owner :=
      fun step member asks => asked ⟨step, member, asks⟩
    rw [find?_after_of_unasked rfl unasked, none]
    rfl

end

/-- In any history that starts without loggers:

* Asking for a service gives the logger at the place that its first logger was put at.
* A logger and its outputs are at one level: the one given to all loggers last since it was first
  asked for or, if none was, the one for the service in the environment of that moment.
* Levels given before that moment might as well not have been. -/
theorem loggers_follow_history (e : Environment) (steps : List Step) (service : Service) :
    (∃ place,
      HandsOut (stateAfter perform (start e) steps) service place
        (steps.any fun step => step.owner? == some (.service service)) ∧
      ∀ more, HandsOut (stateAfter perform (start e) (steps ++ .create service.name :: more)) service
        place true) ∧
    (∀ l ∈ (stateAfter perform (start e) steps).registry, l.owner = .service service →
      (∀ t ∈ l.transports, t.level = some l.level) ∧
      ∃ before ask behind, steps = before ++ ask :: behind ∧
        FirstAsked (.service service) before ask ∧
        some l.level = (lastLevel? behind).or
          ((lastEnvironment e before).resolveLevel (some service.fallback))) ∧
    ∀ before ask behind, steps = before ++ ask :: behind → FirstAsked (.service service) before ask →
      (stateAfter perform (start e) steps).registry.find? (.service service) =
        (stateAfter perform (start e) (before.filter (·.level?.isNone) ++ ask :: behind)).registry.find?
          (.service service) := by
  have distinct := distinct_after (distinct_start e) steps
  refine ⟨?_, fun l member owned => ?_, ?_⟩
  · obtain ⟨place, now, later⟩ := exists_handsOut distinct service
    rw [isSome_find?_after_start] at now
    refine ⟨place, now, fun more => ?_⟩
    rw [stateAfter_append]
    exact later more
  · have found := distinct.find?_of_mem member
    rw [owned] at found
    have asked : ∃ step ∈ steps, step.owner? = some (.service service) := by
      have there := isSome_find?_after_start e steps (.service service)
      rw [found] at there
      simpa using there.symm
    obtain ⟨before, ask, behind, rfl, first⟩ := exists_firstAsked asked
    rw [first.find?_after_start e] at found
    obtain ⟨level, resolved⟩ := resolveLevel_service (lastEnvironment e before) service
    have inStep := (@Logger.inStep_create _ (.service service) _ resolved).relevel
      (lastLevel? behind)
    rw [Option.some.inj found] at inStep
    refine ⟨inStep.1.symm ▸ inStep.2, before, ask, behind, rfl, first, ?_⟩
    rw [resolved, inStep.1]
    cases lastLevel? behind <;> rfl
  · rintro before ask behind rfl first
    have kept : FirstAsked (.service service) (before.filter (·.level?.isNone)) ask :=
      ⟨fun step earlier => first.unasked step (List.mem_filter.mp earlier).1, first.asks⟩
    rw [first.find?_after_start e, kept.find?_after_start e,
      lastEnvironment_filter]

/-- The layout is asked for first, then a level is given and the environment changes, and only then
the settings are asked for. -/
def lateConfig : List Step :=
  [.create "layout", .setLevel "silly", .environment { level := some "verbose", file := some "out.log" },
    .create "config", .create "layout"]

/-- The logger of the settings has the level of its environment and not the one given before, which
the logger of the layout still has. -/
theorem lateConfig_follows_history :
    (stateAfter perform (start {}) lateConfig).registry.map (fun l => (l.owner, l.level)) =
      [(.service .layout, "silly"), (.service .config, "verbose")] ∧
    (∃ place, HandsOut (stateAfter perform (start {}) lateConfig) .config place true) ∧
    (stateAfter perform (start {}) lateConfig).registry.find? (.service .config) =
      (stateAfter perform (start {}) (lateConfig.eraseIdx 1)).registry.find? (.service .config) ∧
    ∀ l ∈ (stateAfter perform (start {}) lateConfig).registry, l.owner = .service .config →
      ∀ t ∈ l.transports, t.level = some "verbose" := by
  have levels : (stateAfter perform (start {}) lateConfig).registry.map (fun l => (l.owner, l.level)) =
      [(.service .layout, "silly"), (.service .config, "verbose")] := by decide
  have first : FirstAsked (.service .config) (lateConfig.take 3) (.create "config") :=
    ⟨by decide, by decide⟩
  obtain ⟨⟨place, found, _⟩, level, unaffected⟩ := loggers_follow_history {} lateConfig .config
  refine ⟨levels, ⟨place, found⟩, unaffected _ _ [.create "layout"] rfl first, fun l member owned => ?_⟩
  have own : l.level = "verbose" := by
    have listed := List.mem_map_of_mem (f := fun l => (l.owner, l.level)) member
    rw [levels, owned] at listed
    simpa using listed
  exact own ▸ (level l member owned).1

end LoggingSession

end Folio
