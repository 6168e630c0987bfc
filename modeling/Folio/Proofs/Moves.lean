import Folio.Layout.Run
import Folio.Proofs.Occurrence

/-!
# A layout as a list of moves

What a layout does next never depends on what it has gathered so far, only on whether it was
interrupted. So the walk through a model can be laid down as a list of moves before it starts, and
the run is these moves one after another until one of them ends it.

Results:
1. `Run.plan_eq_perform`: laying out a plan is performing its moves in order.
2. `Model.moves_eq_visits`: the moves of a model are read off its places one by one.
-/

namespace Folio

variable {α : Type} [Coordinate α]

/-! ## Moves -/

/-- One move of a layout. -/
inductive Move (α : Type) where
  /-- Ask a model for its commands and take in its feedback. -/
  | consult (frame : Frame α) (heading : Heading α)
  /-- Call the sink. -/
  | call (event : Event α)
  /-- Leave out a submodel that lies too deep. -/
  | skip (frame : Frame α) (span : Span α) (heading : Heading α)

def Move.perform (r : Request α) : Move α → Run α Unit
  | .consult frame heading => do
    Run.ask r frame heading
    Run.accept frame heading
  | .call event => do
    Run.callSink r event
    Run.checkAborted event.context
  | .skip frame span heading => Run.skip r frame span heading

def performAll (r : Request α) : List (Move α) → Run α Unit
  | [] => pure ()
  | move :: rest => do
    move.perform r
    performAll r rest

mutual

/-- The moves of a step in a frame, where submodels from depth `limit` on are left out. -/
def Step.moves (limit : α) (frame : Frame α) : Step α → List (Move α)
  | .instruct x => [.call (.command x frame.context)]
  | .leaf span content => [.call (.node (span.offsetBy frame.origin) content frame.context)]
  | .enter span heading inside =>
    if limit ≤ (frame.depth : α) then [.skip frame span heading]
    else .consult (frame.inner span) heading :: Step.movesAll limit (frame.inner span) inside

def Step.movesAll (limit : α) (frame : Frame α) : List (Step α) → List (Move α)
  | [] => []
  | s :: rest => s.moves limit frame ++ Step.movesAll limit frame rest

end

def Plan.moves (limit : α) (frame : Frame α) (p : Plan α) : List (Move α) :=
  .consult frame p.heading :: Step.movesAll limit frame p.steps

/-- The moves of a whole layout. -/
def Request.moves (r : Request α) : List (Move α) := r.model.plan.moves r.limit r.rootFrame

theorem performAll_append (r : Request α) (first second : List (Move α)) :
    performAll r (first ++ second) = (do performAll r first; performAll r second) := by
  induction first with
  | nil => simp [performAll]
  | cons move rest ih => simp [performAll, ih]

mutual

theorem Run.step_eq_perform (r : Request α) (frame : Frame α) (s : Step α) :
    Run.step r frame s = performAll r (s.moves r.limit frame) := by
  cases s with
  | instruct x => simp [Run.step, Step.moves, performAll, Move.perform, Event.context]
  | leaf span content => simp [Run.step, Step.moves, performAll, Move.perform, Event.context]
  | enter span heading inside =>
    rw [Run.step, Step.moves]
    split
    · simp [performAll, Move.perform]
    · simp [performAll, Move.perform, Run.steps_eq_perform r (frame.inner span) inside]

theorem Run.steps_eq_perform (r : Request α) (frame : Frame α) (steps : List (Step α)) :
    Run.steps r frame steps = performAll r (Step.movesAll r.limit frame steps) := by
  cases steps with
  | nil => rfl
  | cons s rest =>
    rw [Run.steps, Step.movesAll, performAll_append, Run.step_eq_perform r frame s,
      Run.steps_eq_perform r frame rest]

end

/-- Laying out a plan is performing its moves in order. -/
theorem Run.plan_eq_perform (r : Request α) (frame : Frame α) (p : Plan α) :
    Run.plan r frame p = performAll r (p.moves r.limit frame) := by
  simp [Run.plan, Plan.moves, performAll, Move.perform, Run.steps_eq_perform]

/-! ## Moves and places -/

/-- The frame reached from `frame` through model nodes with these spans, if none of them lies too
deep. -/
def Frame.descend? (limit : α) (frame : Frame α) : List (Span α) → Option (Frame α)
  | [] => some frame
  | span :: rest =>
    if limit ≤ (frame.depth : α) then none else (frame.inner span).descend? limit rest

/-- The move that a layout makes when it comes past something in a frame. -/
def Visit.Content.move (limit : α) (frame : Frame α) : Visit.Content α → Move α
  | .instruction x => .call (.command x frame.context)
  | .node span (.leaf content) => .call (.node (span.offsetBy frame.origin) content frame.context)
  | .node span (.model m) =>
    if limit ≤ (frame.depth : α) then .skip frame span m.heading
    else .consult (frame.inner span) m.heading

/-- The move at a place, if the layout gets there. -/
def Visit.move? (limit : α) (frame : Frame α) (v : Visit α) : Option (Move α) :=
  (frame.descend? limit v.enclosing).map (v.content.move limit)

namespace MovesLemmas

theorem movesAll_append (limit : α) (frame : Frame α) (first second : List (Step α)) :
    Step.movesAll limit frame (first ++ second) =
      Step.movesAll limit frame first ++ Step.movesAll limit frame second := by
  induction first with
  | nil => rfl
  | cons s rest ih => rw [List.cons_append, Step.movesAll, Step.movesAll, ih, List.append_assoc]

theorem move?_inside (limit : α) (frame : Frame α) (n : Nat) (span : Span α) (v : Visit α) :
    (v.inside n span).move? limit frame =
      if limit ≤ (frame.depth : α) then none else v.move? limit (frame.inner span) := by
  simp only [Visit.move?, Visit.inside, Frame.descend?]
  split
  · rfl
  · rfl

/-- A model that is not reached adds no moves, and one that is adds its own. -/
theorem filterMap_inside (limit : α) (frame : Frame α) (n : Nat) (span : Span α)
    (visits : List (Visit α)) :
    (visits.map (Visit.inside n span)).filterMap (Visit.move? limit frame) =
      if limit ≤ (frame.depth : α) then []
      else visits.filterMap (Visit.move? limit (frame.inner span)) := by
  rw [List.filterMap_map]
  split
  next deep =>
    exact List.filterMap_eq_nil_iff.mpr fun v _ => by rw [Function.comp, move?_inside, if_pos deep]
  next reached =>
    exact List.filterMap_congr fun v _ => by rw [Function.comp, move?_inside, if_neg reached]

theorem itemMoves {items : List (Item α)}
    (inner : ∀ span sub, ⟨span, .model sub⟩ ∈ items → ∀ limit frame,
      Step.movesAll limit frame sub.steps = sub.visits.filterMap (Visit.move? limit frame))
    (limit : α) (frame : Frame α) (n : Nat) :
    Step.movesAll limit frame (Model.itemSteps items) =
      (Model.itemVisits n items).filterMap (Visit.move? limit frame) := by
  induction items generalizing n with
  | nil => rfl
  | cons item rest ih =>
    obtain ⟨span, node⟩ := item
    have tail := ih (fun span sub held => inner span sub (by simp [held])) (n + 1)
    rw [Model.itemVisits, List.filterMap_append, ← tail]
    cases node with
    | leaf content => rfl
    | model m =>
      -- The model stands in the frame of its node, so what is known of it is used there.
      have own := inner span m (by simp) limit (frame.inner span)
      rw [Model.itemSteps, Step.movesAll, Step.moves, Node.visits, List.filterMap_cons,
        filterMap_inside, own]
      simp only [Visit.move?, Frame.descend?, Option.map_some, Visit.Content.move]
      split
      · rfl
      · rfl

theorem commandMoves {commands : List (Command α)} (limit : α) (frame : Frame α)
    (inner : ∀ items, .walk items ∈ commands →
      Step.movesAll limit frame (Model.itemSteps items) =
        (Model.itemVisits 0 items).filterMap (Visit.move? limit frame))
    (n : Nat) :
    Step.movesAll limit frame (Model.commandSteps commands) =
      (Model.commandVisits n commands).filterMap (Visit.move? limit frame) := by
  induction commands generalizing n with
  | nil => rfl
  | cons command rest ih =>
    have tail := ih (fun items walked => inner items (by simp [walked])) (n + 1)
    rw [Model.commandVisits, List.filterMap_append, ← tail]
    cases command with
    | instruct x => rfl
    | walk items =>
      rw [Model.commandSteps, movesAll_append, inner items (by simp), Command.visits,
        List.filterMap_map]
      rfl

theorem consult_of_move {limit : α} {outer frame : Frame α} {content : Visit.Content α}
    {heading : Heading α} (move : content.move limit outer = .consult frame heading) :
    ∃ span m, content = .node span (.model m) ∧ ¬ limit ≤ (outer.depth : α) ∧
      frame = outer.inner span ∧
      heading = m.heading := by
  cases content with
  | instruction x => cases move
  | node span node =>
    cases node with
    | leaf leaf => cases move
    | model m =>
      rw [Visit.Content.move] at move
      split at move
      next => cases move
      next near =>
        cases move
        exact ⟨span, m, rfl, near, rfl, rfl⟩

theorem skip_of_move {limit : α} {outer frame : Frame α} {content : Visit.Content α} {span : Span α}
    {heading : Heading α} (move : content.move limit outer = .skip frame span heading) :
    ∃ m, content = .node span (.model m) ∧ limit ≤ (outer.depth : α) ∧ frame = outer := by
  cases content with
  | instruction x => cases move
  | node span node =>
    cases node with
    | leaf leaf => cases move
    | model m =>
      rw [Visit.Content.move] at move
      split at move
      next deep =>
        cases move
        exact ⟨m, rfl, deep, rfl⟩
      next => cases move

end MovesLemmas

open MovesLemmas

/-- The moves of a model are read off its places one by one. -/
theorem Model.moves_eq_visits (m : Model α) (limit : α) (frame : Frame α) :
    Step.movesAll limit frame m.steps = m.visits.filterMap (Visit.move? limit frame) := by
  -- The frame changes at every model node, so the induction is over all frames at once.
  induction m using Model.submodelInduction generalizing limit frame with
  | step m ih =>
    rw [Model.steps_eq, Model.visits_eq]
    refine commandMoves limit frame (fun items walked => ?_) 0
    exact itemMoves (fun span sub held => ih items span sub walked held) limit frame 0

/-- The moves of a layout: it turns to the model itself, and then comes past its places. -/
theorem Request.moves_eq_visits (r : Request α) :
    r.moves = .consult r.rootFrame r.model.heading ::
      r.model.visits.filterMap (Visit.move? r.limit r.rootFrame) := by
  rw [Request.moves, Plan.moves, Model.plan, Model.moves_eq_visits]

/-- A layout turns to the model it was asked for, and to models inside it that lie not too deep. -/
theorem Request.consult_cases (r : Request α) {frame : Frame α} {heading : Heading α}
    (member : .consult frame heading ∈ r.moves) :
    (frame = r.rootFrame ∧ heading = r.model.heading) ∨
    ∃ v span m outer, Occurs r.model v ∧ v.content = .node span (.model m) ∧
      r.rootFrame.descend? r.limit v.enclosing = some outer ∧ ¬ r.limit ≤ (outer.depth : α) ∧
      frame = outer.inner span ∧ heading = m.heading := by
  rw [Request.moves_eq_visits, List.mem_cons] at member
  rcases member with root | inside
  · cases root
    exact .inl ⟨rfl, rfl⟩
  · obtain ⟨v, visited, made⟩ := List.mem_filterMap.mp inside
    obtain ⟨outer, reached, move⟩ := Option.map_eq_some_iff.mp made
    obtain ⟨span, m, content, near, rfl, rfl⟩ := consult_of_move move
    have occurs := Model.mem_visits_iff.mp visited
    exact .inr ⟨v, span, m, outer, occurs, content, reached, near, rfl, rfl⟩

/-- A layout leaves out models that lie too deep, and no others. -/
theorem Request.skip_cases (r : Request α) {frame : Frame α} {span : Span α} {heading : Heading α}
    (member : .skip frame span heading ∈ r.moves) :
    ∃ v m, Occurs r.model v ∧ v.content = .node span (.model m) ∧
      r.rootFrame.descend? r.limit v.enclosing = some frame ∧ r.limit ≤ (frame.depth : α) := by
  rw [Request.moves_eq_visits, List.mem_cons] at member
  rcases member with root | inside
  · cases root
  · obtain ⟨v, visited, made⟩ := List.mem_filterMap.mp inside
    obtain ⟨outer, reached, move⟩ := Option.map_eq_some_iff.mp made
    obtain ⟨m, content, deep, rfl⟩ := skip_of_move move
    exact ⟨v, m, Model.mem_visits_iff.mp visited, content, reached, deep⟩

/-- What holds of a model and of all models inside it holds of those that a layout turns to. -/
theorem Request.heading_of_consult (r : Request α) {P : Model α → Prop}
    (every : r.model.EveryModel P)
    {frame : Frame α} {heading : Heading α} (member : .consult frame heading ∈ r.moves) :
    ∃ m, heading = m.heading ∧ P m := by
  rcases r.consult_cases member with ⟨_, root⟩ | ⟨v, span, m, _, occurs, content, _, _, _, inside⟩
  · exact ⟨r.model, root, every.1⟩
  · exact ⟨m, inside, every.2 v span m occurs content⟩

/-! ## Whole limits -/

/-- `CountsAs limit bound`: every depth compares with `limit` as it does with the whole number
`bound`. -/
def CountsAs (limit : α) (bound : Int) : Prop := ∀ depth : Nat, limit ≤ (depth : α) ↔ bound ≤ depth

theorem countsAs_self (bound : Int) : CountsAs bound bound := fun _ => Iff.rfl

theorem Frame.depth_of_descend? {limit : α} {frame reached : Frame α} {spans : List (Span α)}
    (found : frame.descend? limit spans = some reached) :
    reached.depth = frame.depth + spans.length := by
  induction spans generalizing frame with
  | nil =>
    cases found
    rfl
  | cons span rest ih =>
    rw [Frame.descend?] at found
    split at found
    · cases found
    · have deeper := ih found
      rw [List.length_cons]
      simp only [Frame.inner] at deeper
      omega

/-- Under a whole limit, what is reached is decided by counting the nodes around it. -/
theorem Frame.descend?_eq {limit : α} {bound : Int} (counts : CountsAs limit bound)
    (frame : Frame α) (spans : List (Span α)) :
    frame.descend? limit spans =
      if spans = [] ∨ frame.depth + spans.length ≤ bound.toNat then
        some (spans.foldl Frame.inner frame)
      else none := by
  induction spans generalizing frame with
  | nil => simp [Frame.descend?]
  | cons span rest ih =>
    have depth : (frame.inner span).depth = frame.depth + 1 := rfl
    rw [Frame.descend?, ih, depth]
    by_cases deep : limit ≤ (frame.depth : α)
    · have far := (counts frame.depth).mp deep
      rw [if_pos deep, if_neg]
      simp only [reduceCtorEq, false_or, List.length_cons]
      omega
    · have near := mt (counts frame.depth).mpr deep
      rw [if_neg deep]
      refine if_congr ?_ rfl rfl
      cases rest with
      | nil => simp; omega
      | cons next rest => simp; omega

theorem Frame.descend?_rootFrame {r : Request α} {bound : Int} (counts : CountsAs r.limit bound)
    (spans : List (Span α)) :
    r.rootFrame.descend? r.limit spans =
      if spans.length ≤ bound.toNat then some (spans.foldl Frame.inner r.rootFrame) else none := by
  rw [Frame.descend?_eq counts]
  refine if_congr ?_ rfl rfl
  cases spans with
  | nil => simp
  | cons span rest => simp [Request.rootFrame]

end Folio
