import Folio.Proofs.Effects

/-!
# Layouts in another place

Everything a layout hands out and reports is measured from where its model starts. So a model that
is laid out by itself, from the beginning of a document, does what it does in its place inside
another: the same calls and the same end, with all spans moved to that place.

Results:
1. `Model.moves_offsetBy`: in a moved frame a model makes the same moves, moved.
2. `Move.relocates`, `performAll_relocates`: moved moves add the same to the progress, moved.
3. `plan_relocates`: the same for a whole model, by itself and in its place.
-/

namespace Folio

variable {α : Type} [Coordinate α]

/-! ## Moved moves -/

def Frame.offsetBy (frame : Frame α) (start : Position α) : Frame α :=
  { frame with origin := frame.origin.offsetBy start }

def Event.offsetBy (start : Position α) : Event α → Event α
  | .node span content context => .node (span.offsetBy start) content context
  | .command x context => .command x context
  | .script id context => .script id context

/-- The same move in a frame that starts elsewhere. What a model shows and the span at which it is
left out are measured from the frame and stay as they are. -/
def Move.offsetBy (start : Position α) : Move α → Move α
  | .consult frame heading => .consult (frame.offsetBy start) heading
  | .call event => .call (event.offsetBy start)
  | .skip frame span heading => .skip (frame.offsetBy start) span heading

/-- Neither the frame of a move nor what it reports there reaches above the start. -/
def Move.LinesNonneg : Move Int → Prop
  | .consult frame heading => 0 ≤ frame.origin.line ∧ heading.feedback.EverySpan Span.LinesNonneg
  | .call _ => True
  | .skip frame span _ => 0 ≤ frame.origin.line ∧ span.LinesNonneg

namespace RelocationLemmas

theorem inner_offsetBy {frame : Frame Int} {span : Span Int} (below : 0 ≤ frame.origin.line)
    (inside : span.LinesNonneg) (start : Position Int) :
    (frame.offsetBy start).inner span = (frame.inner span).offsetBy start := by
  rw [Frame.inner, Frame.inner, Frame.offsetBy, Frame.offsetBy,
    Position.offsetBy_offsetBy inside.1 below]

theorem zero_le_inner {frame : Frame Int} {span : Span Int} (below : 0 ≤ frame.origin.line)
    (inside : span.LinesNonneg) :
    0 ≤ (frame.inner span).origin.line :=
  Position.zero_le_line_offsetBy inside.1 below

/-- A moved frame leads to moved frames, and none that is reached starts above the start. -/
theorem descend?_offsetBy (limit : Int) {frame : Frame Int} {spans : List (Span Int)}
    (below : 0 ≤ frame.origin.line)
    (inside : ∀ span ∈ spans, span.LinesNonneg) (start : Position Int) :
    (frame.offsetBy start).descend? limit spans =
      (frame.descend? limit spans).map (·.offsetBy start) ∧
    ∀ reached, frame.descend? limit spans = some reached → 0 ≤ reached.origin.line := by
  induction spans generalizing frame with
  | nil =>
    refine ⟨rfl, fun reached found => ?_⟩
    cases found
    exact below
  | cons span rest ih =>
    have here := inside span (by simp)
    obtain ⟨moved, reached⟩ :=
      ih (zero_le_inner below here) fun span held => inside span (by simp [held])
    have depth : (frame.offsetBy start).depth = frame.depth := rfl
    rw [Frame.descend?, Frame.descend?, inner_offsetBy below here, moved, depth]
    split
    · refine ⟨rfl, fun reached found => ?_⟩
      cases found
    · exact ⟨rfl, reached⟩

theorem content_move_offsetBy (limit : Int) {frame : Frame Int} {content : Visit.Content Int}
    (below : 0 ≤ frame.origin.line)
    (inside : ∀ span node, content = .node span node → span.LinesNonneg)
    (reported : ∀ span m, content = .node span (.model m) → m.feedback.EverySpan Span.LinesNonneg)
    (start : Position Int) :
    content.move limit (frame.offsetBy start) = (content.move limit frame).offsetBy start ∧
    (content.move limit frame).LinesNonneg := by
  cases content with
  | instruction x => exact ⟨rfl, trivial⟩
  | node span node =>
    have here := inside span node rfl
    cases node with
    | leaf leaf =>
      refine ⟨?_, trivial⟩
      rw [Visit.Content.move, Visit.Content.move, Move.offsetBy, Event.offsetBy,
        Span.offsetBy_offsetBy here below]
      rfl
    | model m =>
      have depth : (frame.offsetBy start).depth = frame.depth := rfl
      rw [Visit.Content.move, Visit.Content.move, inner_offsetBy below here, depth]
      split
      · exact ⟨rfl, below, here⟩
      · exact ⟨rfl, zero_le_inner below here, reported span m rfl⟩

/-- At every place of a model, a moved frame makes the move there a moved one. -/
theorem move?_offsetBy {m : Model Int} (below : m.EverySpan Span.LinesNonneg) {v : Visit Int}
    (occurs : Occurs m v)
    (limit : Int) {frame : Frame Int} (origin : 0 ≤ frame.origin.line) (start : Position Int) :
    v.move? limit (frame.offsetBy start) = (v.move? limit frame).map (Move.offsetBy start) ∧
    ∀ move, v.move? limit frame = some move → move.LinesNonneg := by
  -- The spans around a place are spans of nodes too.
  have around : ∀ span ∈ v.enclosing, span.LinesNonneg := by
    intro span member
    obtain ⟨outer, inner, split⟩ := List.append_of_mem member
    obtain ⟨w, sub, held, _, content⟩ := occurs.node_around split
    exact below.2 w span _ held content
  have spans : ∀ span node, v.content = .node span node → span.LinesNonneg :=
    fun span node content => below.2 v span node occurs content
  have reported : ∀ span sub, v.content = .node span (.model sub) →
      sub.feedback.EverySpan Span.LinesNonneg :=
    fun span sub content => below.1.2 v span sub occurs content
  obtain ⟨moved, reached⟩ := descend?_offsetBy limit origin around start
  rw [Visit.move?, Visit.move?, moved]
  cases found : frame.descend? limit v.enclosing with
  | none =>
    refine ⟨rfl, fun move made => ?_⟩
    rw [Option.map_none] at made
    cases made
  | some inner =>
    obtain ⟨same, sound⟩ := content_move_offsetBy limit (reached inner found) spans reported start
    refine ⟨congrArg some same, fun move made => ?_⟩
    rw [Option.map_some, Option.some.injEq] at made
    rwa [← made]

end RelocationLemmas

open RelocationLemmas

/-- In a moved frame a model makes the same moves, moved. -/
theorem Model.moves_offsetBy {m : Model Int} (below : m.EverySpan Span.LinesNonneg) (limit : Int)
    {frame : Frame Int} (origin : 0 ≤ frame.origin.line) (start : Position Int) :
    m.plan.moves limit (frame.offsetBy start) =
      (m.plan.moves limit frame).map (Move.offsetBy start) := by
  rw [Plan.moves, Plan.moves, Model.plan, Model.moves_eq_visits, Model.moves_eq_visits,
    List.map_cons, List.map_filterMap]
  refine congrArg (List.cons _) (List.filterMap_congr fun v visited => ?_)
  exact (move?_offsetBy below (Model.mem_visits_iff.mp visited) limit origin start).1

theorem Model.moves_linesNonneg {m : Model Int} (below : m.EverySpan Span.LinesNonneg) (limit : Int)
    {frame : Frame Int}
    (origin : 0 ≤ frame.origin.line) {move : Move Int} (member : move ∈ m.plan.moves limit frame) :
    move.LinesNonneg := by
  rw [Plan.moves, Model.plan, Model.moves_eq_visits, List.mem_cons] at member
  rcases member with rfl | inside
  · exact ⟨origin, below.1.1⟩
  · obtain ⟨v, visited, made⟩ := List.mem_filterMap.mp inside
    exact (move?_offsetBy below (Model.mem_visits_iff.mp visited) limit origin .zero).2 move made

/-- The moves of a model from any start are its moves from the beginning of a document, moved. -/
theorem Model.moves_from {m : Model Int} (below : m.EverySpan Span.LinesNonneg) (limit : Int)
    (context : Context) (depth : Nat) (start : Position Int) :
    m.plan.moves limit ⟨context, depth, start⟩ =
      (m.plan.moves limit ⟨context, depth, .zero⟩).map (Move.offsetBy start) := by
  have away : Frame.offsetBy ⟨context, depth, .zero⟩ start = ⟨context, depth, start⟩ :=
    congrArg (Frame.mk context depth) (Position.zero_offsetBy start)
  rw [← away]
  exact Model.moves_offsetBy below limit (Int.le_refl 0) start

/-! ## Moved progress -/

/-- The progress `p` of something laid out by itself, as it is made from `start` on and after
`before`. -/
def Progress.relocated (before : Progress α) (start : Position α) (p : Progress α) :
    Progress α where
  events := before.events ++ p.events.map (Event.offsetBy start)
  notices := before.notices ++ p.notices
  feedback := before.feedback.extendOffset p.feedback start
  calls := p.calls
  aborted := p.aborted

/-- The end of something laid out by itself, as it comes from `start` on and after `before`. -/
def relocatedEnd (before : Progress α) (start : Position α) :
    EStateM.Result Stop (Progress α) Unit → EStateM.Result Stop (Progress α) Unit
  | .ok _ p => .ok () (before.relocated start p)
  | .error stop p => .error stop (before.relocated start p)

/-- A progress with nothing gathered yet, in which participants are where they are in `p`. -/
def Progress.emptied (p : Progress α) : Progress α := { calls := p.calls, aborted := p.aborted }

theorem Progress.relocated_emptied (p : Progress α) (start : Position α) :
    p.relocated start p.emptied = p := by
  simp [Progress.relocated, Progress.emptied, Feedback.extendOffset, Feedback.merge,
    Feedback.offsetBy, Feedback.empty, Spanned.offsetAll]

/-- `Relocates start moved original`: from `start` on and after anything, `moved` makes of a progress
what `original` makes of it by itself. -/
def Relocates (start : Position α) (moved original : Run α Unit) : Prop :=
  ∀ before p : Progress α,
    moved.run (before.relocated start p) = relocatedEnd before start (original.run p)

namespace Relocates

theorem bind {start : Position α} {moved original movedRest rest : Run α Unit}
    (first : Relocates start moved original) (second : Relocates start movedRest rest) :
    Relocates start (do moved; movedRest) (do original; rest) := by
  intro before p
  rw [EStateM.run_bind, EStateM.run_bind, first before p]
  cases original.run p with
  | ok _ q => exact second before q
  | error stop q => rfl

variable (start : Position α)

theorem checkAborted (c : Context) : Relocates start (Run.checkAborted c) (Run.checkAborted c) := by
  intro before p
  -- The signal is looked at and not where the run is.
  have same : (before.relocated start p).aborted = p.aborted := rfl
  cases told : c.signal.read p.aborted <;> simp [Run.checkAborted, same, told, relocatedEnd]

theorem react (live : Bool) (reaction : Reaction) :
    Relocates start (Run.react live reaction) (Run.react live reaction) := by
  intro before p
  obtain ⟨abort, throws⟩ := reaction
  cases live <;> cases throws <;> simp [Run.react, relocatedEnd, Progress.relocated]

theorem note (notice : LayoutNotice α) : Relocates start (Run.note notice) (Run.note notice) := by
  intro before p
  simp [Run.note, relocatedEnd, Progress.relocated]

theorem emit (event : Event α) : Relocates start (Run.emit (event.offsetBy start)) (Run.emit event) := by
  intro before p
  simp [Run.emit, relocatedEnd, Progress.relocated]

/-- The sink answers by the number of the call, which is the same in both places. -/
theorem callSink (r : Request α) (event : Event α) :
    Relocates start (Run.callSink r (event.offsetBy start)) (Run.callSink r event) := by
  intro before p
  have called : ∀ (event : Event α) (p : Progress α), (Run.callSink r event).run p =
      (Run.react r.signal.isLive (r.sink p.calls)).run
        { p with events := p.events ++ [event], calls := p.calls + 1 } := by
    intro event p
    simp [Run.callSink, Run.emit]
  have shown : { before.relocated start p with
      events := (before.relocated start p).events ++ [event.offsetBy start], calls := p.calls + 1 } =
      before.relocated start { p with events := p.events ++ [event], calls := p.calls + 1 } := by
    simp [Progress.relocated]
  rw [called, called, ← react start r.signal.isLive (r.sink p.calls) before, ← shown]
  rfl

theorem ask (r : Request α) (frame : Frame α) (heading : Heading α) :
    Relocates start (Run.ask r (frame.offsetBy start) heading) (Run.ask r frame heading) := by
  refine (checkAborted start frame.context).bind ((note start _).bind ?_)
  cases heading.announces with
  | some id => exact (emit start (.script id frame.context)).bind (react start _ _)
  | none => exact react start _ _

end Relocates

namespace RelocationLemmas

theorem accept_relocates {frame : Frame Int} (below : 0 ≤ frame.origin.line) {heading : Heading Int}
    (inside : heading.feedback.EverySpan Span.LinesNonneg) (start : Position Int) :
    Relocates start (Run.accept (frame.offsetBy start) heading) (Run.accept frame heading) := by
  refine (Relocates.checkAborted start frame.context).bind fun before p => ?_
  have moved := Feedback.offsetBy_offsetBy inside below start
  simp [relocatedEnd, Progress.relocated, Feedback.extendOffset, Feedback.offsetBy_merge,
    Feedback.merge_assoc, moved, Frame.offsetBy]

theorem skip_relocates (r : Request Int) {frame : Frame Int} (below : 0 ≤ frame.origin.line)
    {span : Span Int} (inside : span.LinesNonneg) (heading : Heading Int) (start : Position Int) :
    Relocates start (Run.skip r (frame.offsetBy start) span heading) (Run.skip r frame span heading) := by
  refine (Relocates.note start _).bind fun before p => ?_
  have moved := Span.offsetBy_offsetBy inside below start
  simp [relocatedEnd, Progress.relocated, Feedback.report, Feedback.extendOffset, Feedback.offsetBy,
    Feedback.merge, Spanned.offsetAll, Spanned.offsetBy, Diagnostic.errorAt, moved, Frame.offsetBy]

end RelocationLemmas

/-- A moved move does the same to a moved progress. -/
theorem Move.relocates (r : Request Int) {move : Move Int} (below : move.LinesNonneg)
    (start : Position Int) : Relocates start ((move.offsetBy start).perform r) (move.perform r) := by
  cases move with
  | consult frame heading =>
    exact (Relocates.ask start r frame heading).bind (accept_relocates below.1 below.2 start)
  | call event =>
    refine (Relocates.callSink start r event).bind ?_
    cases event <;> exact Relocates.checkAborted start _
  | skip frame span heading => exact skip_relocates r below.1 below.2 heading start

/-- Moved moves do the same to a moved progress. -/
theorem performAll_relocates (r : Request Int) {moves : List (Move Int)}
    (below : ∀ move ∈ moves, move.LinesNonneg) (start : Position Int) :
    Relocates start (performAll r (moves.map (Move.offsetBy start))) (performAll r moves) := by
  induction moves with
  | nil => exact fun before p => rfl
  | cons move rest ih =>
    have here := Move.relocates r (below move (by simp)) start
    exact here.bind (ih fun move member => below move (by simp [member]))

/-! ## Models in another place -/

/-- From another start, and whatever was done before, a model adds to the progress what it makes of
an empty one. -/
theorem Model.run_plan_relocated (r : Request Int) {m : Model Int}
    (below : m.EverySpan Span.LinesNonneg)
    (before : Progress Int) (context : Context) (depth : Nat) (start : Position Int) :
    (Run.plan r ⟨context, depth, start⟩ m.plan).run before =
      relocatedEnd before start
        ((Run.plan r ⟨context, depth, .zero⟩ m.plan).run before.emptied) := by
  have sound : ∀ move ∈ m.plan.moves r.limit ⟨context, depth, .zero⟩, move.LinesNonneg :=
    fun move => Model.moves_linesNonneg below r.limit (Int.le_refl 0)
  have run := performAll_relocates r sound start before before.emptied
  rwa [Progress.relocated_emptied, ← Model.moves_from below, ← Run.plan_eq_perform,
    ← Run.plan_eq_perform] at run

/-- A model that is laid out by itself, from the start of a document, does what it does anywhere
else: it makes the same moves and comes to the same end, and all that it shows and reports is moved.
So does a model inside another, at the start of its node. -/
theorem plan_relocates (r : Request Int) (m : Model Int) (below : m.EverySpan Span.LinesNonneg)
    (before : Progress Int) :
    (∀ context depth start,
      m.plan.moves r.limit ⟨context, depth, start⟩ =
        (m.plan.moves r.limit ⟨context, depth, .zero⟩).map (Move.offsetBy start) ∧
      (Run.plan r ⟨context, depth, start⟩ m.plan).run before =
        relocatedEnd before start
          ((Run.plan r ⟨context, depth, .zero⟩ m.plan).run before.emptied)) ∧
    ∀ (frame : Frame Int) (span : Span Int), ¬ r.limit ≤ frame.depth →
      (Run.step r frame (.enter span m.heading m.steps)).run before =
        relocatedEnd before (span.start.offsetBy frame.origin)
          ((Run.plan r ⟨frame.context.inner, frame.depth + 1, .zero⟩ m.plan).run before.emptied) := by
  constructor
  · intro context depth start
    exact ⟨Model.moves_from below r.limit context depth start,
      Model.run_plan_relocated r below before context depth start⟩
  · intro frame span near
    have entered : Run.step r frame (.enter span m.heading m.steps) =
        Run.plan r (frame.inner span) m.plan := by
      rw [Run.step, if_neg near]
      rfl
    rw [entered]
    exact Model.run_plan_relocated r below before frame.context.inner (frame.depth + 1)
      (span.start.offsetBy frame.origin)

/-- A note of several lines with a list inside it. -/
def marginNote : Model Int :=
  .script
    { document := .null
      feedback := { diagnostics := [Diagnostic.warningAt ⟨⟨0, 1, 1⟩, ⟨1, 2, 9⟩⟩ "wide"] } }
    [.walk
      [⟨⟨⟨0, 2, 2⟩, ⟨0, 3, 3⟩⟩, .leaf .space⟩,
        ⟨⟨⟨1, 4, 11⟩, ⟨1, 9, 16⟩⟩, .model (.tree [⟨⟨⟨0, 1, 1⟩, ⟨0, 2, 2⟩⟩, .leaf .linebreak⟩])⟩]]

/-- The note as it is laid out inside a model on line 2: only its first line starts further to the
right. -/
theorem marginNote_relocated :
    marginNote.EverySpan Span.LinesNonneg ∧
    (Run.step { model := marginNote, limit := 64 } ⟨{}, 0, ⟨2, 7, 30⟩⟩
      (.enter ⟨⟨0, 3, 3⟩, ⟨1, 9, 19⟩⟩ marginNote.heading marginNote.steps)).run {} =
      .ok ()
        { events :=
            [.script .null { nested := .bool true },
              .node ⟨⟨2, 12, 35⟩, ⟨2, 13, 36⟩⟩ .space { nested := .bool true },
              .node ⟨⟨3, 5, 45⟩, ⟨3, 6, 46⟩⟩ .linebreak { nested := .bool true }]
          notices := [.layingOut .script 1, .layingOut .tree 2]
          feedback := { diagnostics := [Diagnostic.warningAt ⟨⟨2, 11, 34⟩, ⟨3, 2, 42⟩⟩ "wide"] }
          calls := 2 } := by
  have below : marginNote.EverySpan Span.LinesNonneg := by
    rw [Model.everySpan_iff]
    simp [marginNote, Model.visits, Model.commandVisits, Command.visits, Model.itemVisits,
      Node.visits, Visit.under, Visit.inside, Visit.Content.model?, Visit.Content.span?,
      Model.feedback, Feedback.EverySpan, Feedback.empty, Diagnostic.warningAt, Span.LinesNonneg]
  have inPlace := (plan_relocates { model := marginNote, limit := 64 } marginNote below {}).2
    ⟨{}, 0, ⟨2, 7, 30⟩⟩
    ⟨⟨0, 3, 3⟩, ⟨1, 9, 19⟩⟩ (by decide)
  exact ⟨below, inPlace.trans rfl⟩

end Folio
