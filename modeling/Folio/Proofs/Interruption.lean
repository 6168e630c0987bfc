import Folio.Proofs.Effects

/-!
# Layouts that are interrupted

A layout with participants that ask for a stop or fail, against the same layout with all of them
calmed. Both walk the same way; the first interruption decides where the one ends and how.

Main result: `run_stops_at_first_interruption`.
-/

namespace Folio

variable {α : Type} [Coordinate α]

/-! ## The calm layout -/

mutual

/-- The model with scripts that neither ask for a stop nor fail. -/
def Model.calmed : Model α → Model α
  | .call kind name args => .call kind name args
  | .body name items => .body name (Model.calmedItems items)
  | .tree items => .tree (Model.calmedItems items)
  | .aliasing => .aliasing
  | .shapeShifting => .shapeShifting
  | .script head commands => .script { head with reaction := {} } (Model.calmedCommands commands)

def Model.calmedCommands : List (Command α) → List (Command α)
  | [] => []
  | .instruct x :: rest => .instruct x :: Model.calmedCommands rest
  | .walk items :: rest => .walk (Model.calmedItems items) :: Model.calmedCommands rest

def Model.calmedItems : List (Spanned α (Node α)) → List (Spanned α (Node α))
  | [] => []
  | ⟨span, .leaf content⟩ :: rest => ⟨span, .leaf content⟩ :: Model.calmedItems rest
  | ⟨span, .model m⟩ :: rest => ⟨span, .model m.calmed⟩ :: Model.calmedItems rest

end

/-- The same layout without any request to stop and without any failure. -/
def Request.calmed (r : Request α) : Request α :=
  { r with model := r.model.calmed, sink := Sink.calm }

/-- The move with its participant calmed. -/
def Move.calmed : Move α → Move α
  | .consult frame heading => .consult frame { heading with reaction := {} }
  | .call event => .call event
  | .skip frame span heading => .skip frame span { heading with reaction := {} }

namespace InterruptionLemmas

theorem heading_calmed (m : Model α) : m.calmed.heading = { m.heading with reaction := {} } := by
  cases m with
  | call kind name args => cases kind <;> rfl
  | _ => rfl

omit [Coordinate α] in
theorem commands_calmed (m : Model α) : m.calmed.commands = Model.calmedCommands m.commands := by
  cases m with
  | call kind name args => cases kind <;> rfl
  | _ => rfl

theorem itemMoves_calmed {items : List (Item α)}
    (inner : ∀ span sub, ⟨span, .model sub⟩ ∈ items → ∀ limit frame,
      Step.movesAll limit frame sub.calmed.steps =
        (Step.movesAll limit frame sub.steps).map Move.calmed)
    (limit : α) (frame : Frame α) :
    Step.movesAll limit frame (Model.itemSteps (Model.calmedItems items)) =
      (Step.movesAll limit frame (Model.itemSteps items)).map Move.calmed := by
  induction items with
  | nil => rfl
  | cons item rest ih =>
    obtain ⟨span, node⟩ := item
    have tail := ih fun span sub held => inner span sub (by simp [held])
    cases node with
    | leaf content =>
      simp [Model.calmedItems, Model.itemSteps, Step.movesAll, Step.moves, Move.calmed, tail]
    | model m =>
      have own := inner span m (by simp) limit (frame.inner span)
      rw [Model.calmedItems, Model.itemSteps, Model.itemSteps, Step.movesAll, Step.movesAll,
        List.map_append, tail,
        Step.moves, Step.moves, heading_calmed, own]
      split
      · rfl
      · rfl

theorem commandMoves_calmed {commands : List (Command α)} (limit : α) (frame : Frame α)
    (inner : ∀ items, .walk items ∈ commands →
      Step.movesAll limit frame (Model.itemSteps (Model.calmedItems items)) =
        (Step.movesAll limit frame (Model.itemSteps items)).map Move.calmed) :
    Step.movesAll limit frame (Model.commandSteps (Model.calmedCommands commands)) =
      (Step.movesAll limit frame (Model.commandSteps commands)).map Move.calmed := by
  induction commands with
  | nil => rfl
  | cons command rest ih =>
    have tail := ih fun items walked => inner items (by simp [walked])
    cases command with
    | instruct x =>
      simp [Model.calmedCommands, Model.commandSteps, Step.movesAll, Step.moves, Move.calmed, tail]
    | walk items =>
      rw [Model.calmedCommands, Model.commandSteps, Model.commandSteps, MovesLemmas.movesAll_append,
        MovesLemmas.movesAll_append, List.map_append, tail, inner items (by simp)]

theorem stepMoves_calmed (m : Model α) (limit : α) (frame : Frame α) :
    Step.movesAll limit frame m.calmed.steps =
      (Step.movesAll limit frame m.steps).map Move.calmed := by
  induction m using Model.submodelInduction generalizing limit frame with
  | step m ih =>
    rw [Model.steps_eq, Model.steps_eq, commands_calmed]
    refine commandMoves_calmed limit frame fun items walked => ?_
    exact itemMoves_calmed (fun span sub held => ih items span sub walked held) limit frame

end InterruptionLemmas

open InterruptionLemmas

/-- Calming the participants changes no move but for their reactions. -/
theorem Request.moves_calmed (r : Request α) : r.calmed.moves = r.moves.map Move.calmed := by
  have root : r.calmed.rootFrame = r.rootFrame := rfl
  rw [Request.moves, Request.moves, Plan.moves, Plan.moves, root]
  simp [Request.calmed, Model.plan, heading_calmed, stepMoves_calmed, Move.calmed]

theorem Request.undisturbed_calmed (r : Request α) : r.calmed.Undisturbed 0 r.calmed.moves := by
  intro first move rest split
  have member : move ∈ r.moves.map Move.calmed := by rw [← r.moves_calmed, split]; simp
  obtain ⟨original, _, rfl⟩ := List.mem_map.mp member
  have calm : ∀ number, original.calmed.reaction r.calmed number = {} := by
    intro number
    cases original <;> rfl
  rw [calm, Request.interruption_none]

/-- The calm layout makes the moves of the layout itself, all of them. -/
theorem Request.run_calmed (r : Request α) (unraised : r.signal.raised = none) :
    r.calmed.run = Request.report (Progress.after r {} r.moves) none := by
  rw [r.calmed.run_undisturbed unraised r.undisturbed_calmed, r.moves_calmed]
  congr 1
  have events : ∀ move : Move α, move.calmed.event? = move.event? := by
    intro move
    cases move <;> rfl
  have notices : ∀ move : Move α, move.calmed.notice? r.calmed = move.notice? r := by
    intro move
    cases move <;> rfl
  have reports : ∀ move : Move α, move.calmed.reports r.calmed = move.reports r := by
    intro move
    cases move <;> rfl
  have calls : ∀ move : Move α, move.calmed.isCall = move.isCall := by
    intro move
    cases move <;> rfl
  simp only [Progress.after, List.filterMap_map, List.map_map, List.countP_map, Function.comp_def,
    events, notices, reports, calls]

/-- Only scripts interfere, and these announce themselves. -/
theorem Model.reaction_of_silent {m : Model α} (silent : m.heading.announces = none) :
    m.heading.reaction = {} := by
  cases m with
  | script head commands => cases silent
  | _ => rfl

/-- A move that interrupts can be observed. -/
theorem Request.event_of_interruption (r : Request α) {move : Move α} (member : move ∈ r.moves)
    {number : Nat} {stop : Stop}
    (interrupted : r.interruption (move.reaction r number) = some stop) :
    ∃ event, move.event? = some event := by
  cases move with
  | consult frame heading =>
    have everywhere : r.model.EveryModel fun _ => True := ⟨trivial, fun _ _ _ _ _ => trivial⟩
    obtain ⟨m, rfl, _⟩ := r.heading_of_consult everywhere member
    cases said : m.heading.announces with
    | some id => exact ⟨.script id frame.context, by rw [Move.event?, said]; rfl⟩
    | none =>
      rw [Move.reaction, Model.reaction_of_silent said, r.interruption_none] at interrupted
      cases interrupted
  | call event => exact ⟨event, rfl⟩
  | skip frame span heading =>
    rw [Move.reaction, r.interruption_none] at interrupted
    cases interrupted

/-! ## The first interruption -/

/-- A layout makes the moves of the calm one up to the first that is interrupted, and ends there as
the interruption says. The calm layout shows all moves, in order; a signal that was raised before
the start lets none of them happen. -/
theorem run_stops_at_first_interruption (r : Request α) :
    (∀ reason, r.signal.raised = some reason →
      r.run = ⟨[], [], .error (.abandoned reason)⟩) ∧
    (r.signal.raised = none →
      r.calmed.run.events = r.moves.filterMap Move.event? ∧
      r.calmed.run.notices.dropLast = r.moves.filterMap (Move.notice? r) ∧
      r.calmed.run.result = .ok r.gathered ∧
      (r.Undisturbed 0 r.moves → r.run = r.calmed.run) ∧
      ∀ before move after stop, r.moves = before ++ move :: after → r.Undisturbed 0 before →
        r.interruption (move.reaction r (before.countP Move.isCall)) = some stop →
        ∃ event, move.event? = some event ∧
          r.run.events = before.filterMap Move.event? ++ [event] ∧
          r.calmed.run.events = r.run.events ++ after.filterMap Move.event? ∧
          r.run.notices = (before ++ [move]).filterMap (Move.notice? r) ∧
          r.run.result = .error stop) := by
  refine ⟨r.run_raised, fun unraised => ?_⟩
  rw [r.run_calmed unraised]
  refine ⟨rfl, List.dropLast_concat, rfl, r.run_undisturbed unraised, ?_⟩
  intro before move after stop split calm interrupted
  obtain ⟨event, shown⟩ := r.event_of_interruption (by rw [split]; simp) interrupted
  have last : (before ++ [move]).filterMap Move.event? =
      before.filterMap Move.event? ++ [event] := by
    simp [shown]
  rw [r.run_stopped unraised before after move split calm stop interrupted]
  refine ⟨event, shown, last, ?_, rfl, rfl⟩
  calc
    r.moves.filterMap Move.event? = (before ++ [move] ++ after).filterMap Move.event? := by
      rw [split]; simp
    _ = (before ++ [move]).filterMap Move.event? ++ after.filterMap Move.event? :=
      List.filterMap_append

/-- A document with a script that asks for a stop and fails, for a sink that would fail later. -/
def failingScript : Request Int where
  model := .tree
    [⟨.zero, .leaf .space⟩,
      ⟨.zero, .model (.script { document := .null, reaction := ⟨some .unspecified, some "broken"⟩ }
        [.instruct .breakPage])⟩,
      ⟨.zero, .leaf .linebreak⟩]
  limit := 64
  sink := Sink.scripted none .unspecified (some 1) "late"

/-- The script is asked and nothing comes after it; its own failure counts. -/
theorem failingScript_stops :
    failingScript.run.events =
      [.node .zero .space {}, .script .null { nested := .bool true }] ∧
    failingScript.calmed.run.events = failingScript.run.events ++
      [.command .breakPage { nested := .bool true }, .node .zero .linebreak {}] ∧
    failingScript.run.result = .error (.threw "broken") := by
  let root := failingScript.rootFrame
  let script : Heading Int := ⟨.script, some .null, ⟨some .unspecified, some "broken"⟩, .empty⟩
  have split : failingScript.moves =
      [.consult root failingScript.model.heading, .call (.node .zero .space {})] ++
        .consult (root.inner .zero) script ::
          [.call (.command .breakPage { nested := .bool true }),
            .call (.node .zero .linebreak {})] := rfl
  have calm : failingScript.Undisturbed 0
      [.consult root failingScript.model.heading, .call (.node .zero .space {})] := by
    simp only [Request.undisturbed_cons, Request.undisturbed_nil, and_true]
    exact ⟨rfl, rfl⟩
  obtain ⟨event, shown, events, calmEvents, _, result⟩ :=
    ((run_stops_at_first_interruption failingScript).2 rfl).2.2.2.2 _ _ _
      (.threw "broken") split calm rfl
  cases shown
  exact ⟨events, calmEvents, result⟩

/-- A script asks for a stop, and the context holds a value that only looks like a signal. -/
def standInSignal : Request Int where
  model := .script { document := .null, reaction := { abort := some .unspecified } }
    [.instruct .finishLine]
  context := { signal := .fixed (.obj [("aborted", .bool false)]) }
  limit := 64

/-- A call that asks for a stop does not end the layout when its context holds such a value. -/
theorem standInSignal_goes_on :
    standInSignal.model.reaction.abort = some .unspecified ∧
    standInSignal.context = Context.widen {} [("signal", .obj [("aborted", .bool false)])] ∧
    standInSignal.run.events =
      [.script .null standInSignal.context, .command .finishLine standInSignal.context] ∧
    standInSignal.run.result = .ok .empty :=
  ⟨rfl, rfl, rfl, rfl⟩

end Folio
