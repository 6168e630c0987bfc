import Folio.Proofs.Moves

/-!
# What the moves of a layout do

A move shows itself to the engine and in the log, and then either adds its reports or ends the run,
which only the reaction of the participant it turns to decides.

Results:
1. `Request.heeds_moves`: every participant is handed the signal of the caller.
2. `Move.run_perform`: what one move does.
3. `run_performAll`, `run_performAll_stopped`: what moves do one after another, up to the first that
   ends the run.
4. `Request.run_raised`, `Request.run_undisturbed`, `Request.run_stopped`: the same for a whole
   layout.
-/

namespace Folio

variable {α : Type} [Coordinate α]

/-! ## What moves do -/

/-- Before anybody can have raised it, a signal tells what it told at the start. -/
theorem Signal.read_raised (s : Signal) : s.read s.raised = s.raised := by
  cases s <;> rfl

theorem Signal.read_of_unraised {s : Signal} (unraised : s.raised = Option.none) :
    s.read Option.none = Option.none := by
  cases s with
  | none => rfl
  | live raised => rfl
  | fixed value => exact unraised

/-- Feedback bundles one after another. -/
def Feedback.concat (bundles : List (Feedback α)) : Feedback α :=
  ⟨bundles.flatMap (·.diagnostics), bundles.flatMap (·.decorations)⟩

omit [Coordinate α] in
theorem Feedback.concat_cons (first : Feedback α) (rest : List (Feedback α)) :
    Feedback.concat (first :: rest) = first.merge (.concat rest) := rfl

/-- What is said of a submodel that lies too deep. -/
def Request.depthMessage (r : Request α) : String :=
  "maximum layout depth of " ++ r.limitText ++ " exceeded"

namespace Move

/-- Whether the sink is called. -/
def isCall : Move α → Bool
  | .call _ => true
  | _ => false

/-- The context that a move hands to the participant it turns to. Leaving out a model turns to
nobody. -/
def given? : Move α → Option Context
  | .consult frame _ => some frame.context
  | .call event => some event.context
  | .skip _ _ _ => none

/-- `move.Heeds signal`: whoever the move turns to is handed this signal. -/
def Heeds (signal : Signal) (move : Move α) : Prop := ∀ c ∈ move.given?, c.signal = signal

/-- What the engine can observe of a move. -/
def event? : Move α → Option (Event α)
  | .consult frame heading => heading.announces.map (.script · frame.context)
  | .call event => some event
  | .skip _ _ _ => none

def notice? (r : Request α) : Move α → Option (LayoutNotice α)
  | .consult frame heading => some (.layingOut heading.modelClass frame.depth)
  | .call _ => none
  | .skip _ _ heading => some (.skipping heading.modelClass r.limit r.givenLimit)

/-- What a move reports, in document coordinates. -/
def reports (r : Request α) : Move α → Feedback α
  | .consult frame heading => heading.feedback.offsetBy frame.origin
  | .call _ => .empty
  | .skip frame span _ =>
    { diagnostics := [Diagnostic.errorAt (span.offsetBy frame.origin) r.depthMessage] }

/-- How the participant that a move turns to interferes; `number` counts the calls of the sink
before. -/
def reaction (r : Request α) (number : Nat) : Move α → Reaction
  | .consult _ heading => heading.reaction
  | .call _ => r.sink number
  | .skip _ _ _ => {}

end Move

/-- The span of a node that the sink is given. -/
def Event.nodeSpan? : Event α → Option (Span α)
  | .node span _ _ => some span
  | _ => none

/-- What all moves of a layout report. -/
def Request.gathered (r : Request α) : Feedback α := .concat (r.moves.map (Move.reports r))

/-- How a run ends at a call that is reacted to like this, if it ends there. A failure comes before
a request to stop, and such a request only counts if the signal of the context is the one that
participants raise. -/
def Request.interruption (r : Request α) (reaction : Reaction) : Option Stop :=
  match reaction.throws with
  | some message => some (.threw message)
  | none => if r.signal.isLive then reaction.abort.map .abandoned else none

/-- `r.Undisturbed number moves`: nobody ends the run at any of these moves, when the first call of
the sink among them has this number. -/
def Request.Undisturbed (r : Request α) (number : Nat) (moves : List (Move α)) : Prop :=
  ∀ first move rest, moves = first ++ move :: rest →
    r.interruption (move.reaction r (number + first.countP Move.isCall)) = none

/-- The progress after moves that nobody interfered with. -/
def Progress.after (r : Request α) (p : Progress α) (moves : List (Move α)) : Progress α where
  events := p.events ++ moves.filterMap Move.event?
  notices := p.notices ++ moves.filterMap (Move.notice? r)
  feedback := p.feedback.merge (.concat (moves.map (Move.reports r)))
  calls := p.calls + moves.countP Move.isCall
  aborted := p.aborted

theorem Progress.after_append (r : Request α) (p : Progress α) (first second : List (Move α)) :
    p.after r (first ++ second) = (p.after r first).after r second := by
  simp [Progress.after, Feedback.merge, Feedback.concat, Nat.add_assoc]

theorem Progress.after_cons (r : Request α) (p : Progress α) (move : Move α)
    (rest : List (Move α)) :
    p.after r (move :: rest) = (p.after r [move]).after r rest :=
  Progress.after_append r p [move] rest

theorem Progress.after_nil (r : Request α) (p : Progress α) : p.after r [] = p := by
  simp [Progress.after, Feedback.merge, Feedback.concat]

theorem Progress.after_consult (r : Request α) (p : Progress α) (frame : Frame α)
    (heading : Heading α) :
    p.after r [.consult frame heading] =
      { p with
        events := p.events ++ (heading.announces.map (Event.script · frame.context)).toList
        notices := p.notices ++ [.layingOut heading.modelClass frame.depth]
        feedback := p.feedback.extendOffset heading.feedback frame.origin } := by
  cases said : heading.announces <;>
    simp [Progress.after, Move.event?, Move.notice?, Move.reports, Move.isCall, Feedback.concat,
      Feedback.extendOffset, said]

theorem Progress.after_call (r : Request α) (p : Progress α) (event : Event α) :
    p.after r [.call event] = { p with events := p.events ++ [event], calls := p.calls + 1 } := by
  simp [Progress.after, List.filterMap, Move.event?, Move.notice?, Move.reports, Move.isCall,
    Feedback.concat, Feedback.merge, Feedback.empty]

theorem Progress.after_skip (r : Request α) (p : Progress α) (frame : Frame α) (span : Span α)
    (heading : Heading α) :
    p.after r [.skip frame span heading] =
      { p with
        notices := p.notices ++ [.skipping heading.modelClass r.limit r.givenLimit]
        feedback :=
          p.feedback.report (Diagnostic.errorAt (span.offsetBy frame.origin) r.depthMessage) } := by
  simp [Progress.after, List.filterMap, Move.event?, Move.notice?, Move.reports, Move.isCall,
    Feedback.concat, Feedback.merge, Feedback.report]

/-- The progress once a move has been made but not yet answered. -/
def Progress.shown (r : Request α) (p : Progress α) (move : Move α) : Progress α :=
  { p.after r [move] with feedback := p.feedback }

/-- The progress once a participant has raised the signal, if it can and does. -/
def Progress.reacted (r : Request α) (p : Progress α) (reaction : Reaction) : Progress α :=
  if r.signal.isLive then { p with aborted := p.aborted <|> reaction.abort } else p

omit [Coordinate α] in
theorem Progress.reacted_events (r : Request α) (p : Progress α) (reaction : Reaction) :
    (p.reacted r reaction).events = p.events := by
  unfold Progress.reacted
  split <;> rfl

omit [Coordinate α] in
theorem Progress.reacted_notices (r : Request α) (p : Progress α) (reaction : Reaction) :
    (p.reacted r reaction).notices = p.notices := by
  unfold Progress.reacted
  split <;> rfl

omit [Coordinate α] in
theorem Request.interruption_none (r : Request α) : r.interruption {} = none := by
  cases live : r.signal.isLive <;> simp [Request.interruption, live]

/-! ## The signal of every call -/

mutual

theorem Step.heeds_moves (limit : α) (frame : Frame α) (s : Step α) :
    ∀ move ∈ s.moves limit frame, move.Heeds frame.context.signal := by
  cases s with
  | instruct x => simp [Step.moves, Move.Heeds, Move.given?, Event.context]
  | leaf span content => simp [Step.moves, Move.Heeds, Move.given?, Event.context]
  | enter span heading inside =>
    rw [Step.moves]
    split
    · simp [Move.Heeds, Move.given?]
    · -- The context of the submodel is a copy, and the signal is among what is copied.
      have within := Step.heeds_movesAll limit (frame.inner span) inside
      intro move member
      rcases List.mem_cons.mp member with rfl | later
      · rintro c ⟨⟩
        rfl
      · exact within move later

theorem Step.heeds_movesAll (limit : α) (frame : Frame α) (steps : List (Step α)) :
    ∀ move ∈ Step.movesAll limit frame steps, move.Heeds frame.context.signal := by
  cases steps with
  | nil => simp [Step.movesAll]
  | cons s rest =>
    intro move member
    rw [Step.movesAll, List.mem_append] at member
    rcases member with here | later
    · exact Step.heeds_moves limit frame s move here
    · exact Step.heeds_movesAll limit frame rest move later

end

omit [Coordinate α] in
theorem Request.signal_rootContext (r : Request α) : r.rootContext.signal = r.signal := by
  rw [Request.rootContext]
  split
  · rfl
  · rfl

/-- Every participant of a layout is handed the signal of the caller. -/
theorem Request.heeds_moves (r : Request α) : ∀ move ∈ r.moves, move.Heeds r.signal := by
  intro move member
  rw [← r.signal_rootContext]
  rw [Request.moves, Plan.moves, List.mem_cons] at member
  rcases member with rfl | later
  · rintro c ⟨⟩
    rfl
  · exact Step.heeds_movesAll r.limit r.rootFrame r.model.plan.steps move later

/-! ## What one move does -/

namespace EffectsLemmas

omit [Coordinate α] in
theorem run_checkAborted {c : Context} {p : Progress α} (running : c.signal.read p.aborted = none) :
    (Run.checkAborted c : Run α Unit).run p = .ok () p := by
  simp [Run.checkAborted, running]

omit [Coordinate α] in
/-- Every call is followed by a look at the signal, so that it ends the run exactly if it
interrupts. -/
theorem run_react_check (r : Request α) (reaction : Reaction) {c : Context} (own : c.signal = r.signal)
    (p : Progress α) (running : r.signal.read p.aborted = none) :
    (do Run.react r.signal.isLive reaction; Run.checkAborted c : Run α Unit).run p =
      match r.interruption reaction with
      | none => .ok () p
      | some stop => .error stop (p.reacted r reaction) := by
  obtain ⟨abort, throws⟩ := reaction
  unfold Run.react Run.checkAborted Request.interruption Progress.reacted
  rw [own]
  cases signal : r.signal with
  | none => cases throws <;> simp [Signal.isLive, Signal.read, Signal.raised]
  | fixed value =>
    rw [signal] at running
    cases throws <;> simp [Signal.isLive, running]
  | live raised =>
    have unraised : p.aborted = none := by rwa [signal] at running
    cases throws with
    | some message => simp [Signal.isLive]
    | none =>
      cases abort with
      | none =>
        obtain ⟨events, notices, feedback, calls, aborted⟩ := p
        subst unraised
        simp [Signal.isLive, Signal.read]
      | some reason => simp [Signal.isLive, Signal.read, unraised]

omit [Coordinate α] in
theorem run_react_check_then (r : Request α) (reaction : Reaction) {c : Context}
    (own : c.signal = r.signal) (p : Progress α) (running : r.signal.read p.aborted = none)
    (rest : Run α Unit) :
    (do Run.react r.signal.isLive reaction; Run.checkAborted c; rest : Run α Unit).run p =
      match r.interruption reaction with
      | none => rest.run p
      | some stop => .error stop (p.reacted r reaction) := by
  rw [← bind_assoc, EStateM.run_bind, run_react_check r reaction own p running]
  cases r.interruption reaction with
  | none => rfl
  | some stop => rfl

end EffectsLemmas

open EffectsLemmas

/-- A move adds what it shows, and then either what it reports or the end of the run. -/
theorem Move.run_perform (r : Request α) {move : Move α} (heeds : move.Heeds r.signal)
    (p : Progress α) (running : r.signal.read p.aborted = none) :
    (move.perform r).run p =
      match r.interruption (move.reaction r p.calls) with
      | none => .ok () (p.after r [move])
      | some stop => .error stop ((p.shown r move).reacted r (move.reaction r p.calls)) := by
  cases move with
  | consult frame heading =>
    -- A model is looked at only after the signal, so first nothing may have been asked for.
    have own : frame.context.signal = r.signal := heeds frame.context rfl
    have unabated : (Run.checkAborted frame.context).run p = .ok () p :=
      run_checkAborted (by rwa [own])
    have reply : (Move.perform r (.consult frame heading)).run p =
        (do Run.react r.signal.isLive heading.reaction; Run.accept frame heading :
          Run α Unit).run
          (p.shown r (.consult frame heading)) := by
      simp only [Move.perform, Run.ask, bind_assoc]
      rw [EStateM.run_bind, unabated, Progress.shown, Progress.after_consult]
      cases heading.announces with
      | none => simp [Run.note]
      | some id => simp [Run.note, Run.emit]
    rw [reply, Run.accept, run_react_check_then r heading.reaction own
      (p.shown r (.consult frame heading)) running]
    rw [Move.reaction]
    cases r.interruption heading.reaction with
    | none => simp [Progress.shown, Progress.after_consult]
    | some stop => rfl
  | call event =>
    have own : event.context.signal = r.signal := heeds event.context rfl
    have reply : (Move.perform r (.call event)).run p =
        (do Run.react r.signal.isLive (r.sink p.calls); Run.checkAborted event.context :
          Run α Unit).run
          (p.shown r (.call event)) := by
      rw [Progress.shown, Progress.after_call]
      simp [Move.perform, Run.callSink, Run.emit]
    rw [reply, run_react_check r (r.sink p.calls) own (p.shown r (.call event)) running, Move.reaction]
    cases r.interruption (r.sink p.calls) with
    | none => simp [Progress.shown, Progress.after_call]
    | some stop => rfl
  | skip frame span heading =>
    rw [Move.reaction, r.interruption_none, Progress.after_skip]
    rfl

/-! ## Moves one after another -/

omit [Coordinate α] in
theorem Request.undisturbed_nil (r : Request α) (number : Nat) : r.Undisturbed number [] := by
  intro first move rest split
  simp at split

omit [Coordinate α] in
theorem Request.undisturbed_cons (r : Request α) (number : Nat) (move : Move α)
    (rest : List (Move α)) :
    r.Undisturbed number (move :: rest) ↔
      r.interruption (move.reaction r number) = none ∧
      r.Undisturbed (number + [move].countP Move.isCall) rest := by
  constructor
  · intro calm
    refine ⟨calm [] move rest rfl, ?_⟩
    rintro first later tail rfl
    have next := calm (move :: first) later tail rfl
    rwa [← List.singleton_append, List.countP_append, ← Nat.add_assoc] at next
  · rintro ⟨now, later⟩ first next tail split
    cases first with
    | nil =>
      obtain ⟨rfl, _⟩ := List.cons.inj split
      exact now
    | cons head first =>
      obtain ⟨rfl, inRest⟩ := List.cons.inj split
      rw [← List.singleton_append, List.countP_append, ← Nat.add_assoc]
      exact later first next tail inRest

/-- Moves that nobody interferes with are all made. -/
theorem run_performAll (r : Request α) (moves : List (Move α))
    (heeds : ∀ move ∈ moves, move.Heeds r.signal) (p : Progress α)
    (running : r.signal.read p.aborted = none) (calm : r.Undisturbed p.calls moves) :
    (performAll r moves).run p = .ok () (p.after r moves) := by
  induction moves generalizing p with
  | nil => rw [Progress.after_nil]; rfl
  | cons move rest ih =>
    obtain ⟨now, later⟩ := (r.undisturbed_cons p.calls move rest).mp calm
    have here := heeds move (by simp)
    rw [performAll, EStateM.run_bind, Move.run_perform r here p running, now,
      Progress.after_cons r p move rest]
    exact ih (fun move member => heeds move (by simp [member])) (p.after r [move]) running later

/-- The first move that somebody interferes with is the last that is made. -/
theorem run_performAll_stopped (r : Request α) (before after : List (Move α)) (move : Move α)
    (heeds : ∀ made ∈ before ++ move :: after, made.Heeds r.signal) (p : Progress α)
    (running : r.signal.read p.aborted = none) (calm : r.Undisturbed p.calls before) (stop : Stop)
    (stopped : r.interruption (move.reaction r (p.calls + before.countP Move.isCall)) = some stop) :
    (performAll r (before ++ move :: after)).run p =
      .error stop (((p.after r before).shown r move).reacted r
        (move.reaction r (p.calls + before.countP Move.isCall))) := by
  have last := Move.run_perform r (heeds move (by simp)) (p.after r before) running
  rw [show (p.after r before).calls = p.calls + before.countP Move.isCall from rfl, stopped] at last
  rw [performAll_append, EStateM.run_bind, run_performAll r before (fun made member => heeds made (by simp [member])) p
      running calm, performAll]
  simp only [EStateM.run_bind, last]

/-! ## Whole layouts -/

/-- A layout that was called off before its start does nothing. -/
theorem Request.run_raised (r : Request α) (reason : AbortReason)
    (raised : r.signal.raised = some reason) :
    r.run = ⟨[], [], .error (.abandoned reason)⟩ := by
  have seen : r.rootFrame.context.signal.read r.start.aborted = some reason := by
    rw [Request.rootFrame, r.signal_rootContext, Request.start, Signal.read_raised, raised]
  have stopped : (Run.plan r r.rootFrame r.model.plan).run r.start =
      .error (.abandoned reason) r.start := by
    simp [Run.plan, Run.ask, Run.checkAborted, seen]
  rw [Request.run, stopped]
  rfl

/-- A layout that nobody interferes with makes all its moves. -/
theorem Request.run_undisturbed (r : Request α) (unraised : r.signal.raised = none)
    (calm : r.Undisturbed 0 r.moves) :
    r.run = Request.report (Progress.after r {} r.moves) none := by
  have start : r.start = {} := by rw [Request.start, unraised]
  have whole : (Run.plan r r.rootFrame r.model.plan).run r.start =
      .ok () (Progress.after r {} r.moves) := by
    rw [start, Run.plan_eq_perform]
    exact run_performAll r r.moves r.heeds_moves {} (Signal.read_of_unraised unraised) calm
  rw [Request.run, whole]

/-- A layout that somebody interferes with ends with the first move at which this happens. -/
theorem Request.run_stopped (r : Request α) (unraised : r.signal.raised = none)
    (before after : List (Move α)) (move : Move α) (moves : r.moves = before ++ move :: after)
    (calm : r.Undisturbed 0 before) (stop : Stop)
    (stopped : r.interruption (move.reaction r (before.countP Move.isCall)) = some stop) :
    r.run =
      ⟨(before ++ [move]).filterMap Move.event?, (before ++ [move]).filterMap (Move.notice? r),
        .error stop⟩ := by
  have start : r.start = {} := by rw [Request.start, unraised]
  have last := run_performAll_stopped r before after move (moves ▸ r.heeds_moves) {}
    (Signal.read_of_unraised unraised) calm stop (by rwa [Nat.zero_add])
  rw [← moves] at last
  rw [Request.run, start, Run.plan_eq_perform, ← Request.moves, last]
  simp only [Request.report, Progress.reacted_events, Progress.reacted_notices, Progress.shown,
    Progress.after,
    List.nil_append, List.filterMap_append]

/-- No participant ever interferes. -/
structure Request.IsCalm (r : Request α) : Prop where
  model : r.model.EveryModel fun m => m.reaction = {}
  sink : ∀ number, r.sink number = {}

theorem Request.IsCalm.undisturbed {r : Request α} (calm : r.IsCalm) : r.Undisturbed 0 r.moves := by
  intro first move rest split
  have none : ∀ number, move.reaction r number = {} := by
    intro number
    cases move with
    | consult frame heading =>
      have member : .consult frame heading ∈ r.moves := by rw [split]; simp
      obtain ⟨m, rfl, quiet⟩ := r.heading_of_consult calm.model member
      exact quiet
    | call event => exact calm.sink number
    | skip frame span heading => rfl
  rw [none, r.interruption_none]

/-- What a layout shows and reports if no participant interferes. -/
theorem Request.IsCalm.run_eq {r : Request α} (calm : r.IsCalm)
    (unraised : r.signal.raised = none) :
    r.run = Request.report (Progress.after r {} r.moves) none :=
  r.run_undisturbed unraised calm.undisturbed

theorem Request.IsCalm.run_events {r : Request α} (calm : r.IsCalm)
    (unraised : r.signal.raised = none) :
    r.run.events = r.moves.filterMap Move.event? := by
  rw [calm.run_eq unraised]
  rfl

theorem Request.IsCalm.run_notices {r : Request α} (calm : r.IsCalm)
    (unraised : r.signal.raised = none) :
    r.run.notices = r.moves.filterMap (Move.notice? r) ++
      [.finished r.gathered.diagnostics.length r.gathered.decorations.length] := by
  rw [calm.run_eq unraised]
  rfl

theorem Request.IsCalm.run_result {r : Request α} (calm : r.IsCalm)
    (unraised : r.signal.raised = none) :
    r.run.result = .ok r.gathered := by
  rw [calm.run_eq unraised]
  rfl

end Folio
