import Folio.Proofs.Effects
import Mathlib.Data.List.Flatten

/-!
# The depth limit only truncates

Two layouts of one model with different limits, nobody interfering: the one with the lower limit
makes the calls of the other but for those inside models that it leaves out, and if it leaves out
none the two are the same.

Main result: `lower_limit_truncates`.
-/

namespace Folio

variable {α : Type} [Coordinate α]

/-- The layout with another depth limit. -/
def Request.limited (r : Request α) (limit : α) : Request α := { r with limit }

/-- Whether a submodel is left out. -/
def Move.isSkip : Move α → Bool
  | .skip _ _ _ => true
  | _ => false

/-- The moves that turn to a participant: a model that is laid out, or the sink. -/
def Request.turns (r : Request α) : List (Move α) := r.moves.filter (! ·.isSkip)

/-- What the models that are laid out report themselves. -/
def Request.ownDiagnostics (r : Request α) : List (Spanned α Diagnostic) :=
  r.turns.flatMap fun move => (move.reports r).diagnostics

namespace DepthLimitLemmas

variable {low high : α}

/-- What is reached under a lower limit is reached under a higher one. -/
theorem descend?_mono (lower : ∀ depth : Nat, high ≤ (depth : α) → low ≤ (depth : α))
    {frame reached : Frame α}
    {spans : List (Span α)} (found : frame.descend? low spans = some reached) :
    frame.descend? high spans = some reached := by
  induction spans generalizing frame with
  | nil => exact found
  | cons span rest ih =>
    rw [Frame.descend?] at found ⊢
    split at found
    · cases found
    next near =>
      rw [if_neg fun deep => near (lower frame.depth deep)]
      exact ih found

theorem content_move_mono (lower : ∀ depth : Nat, high ≤ (depth : α) → low ≤ (depth : α))
    {frame : Frame α} {content : Visit.Content α} (turn : (content.move low frame).isSkip = false) :
    content.move high frame = content.move low frame := by
  cases content with
  | instruction x => rfl
  | node span node =>
    cases node with
    | leaf content => rfl
    | model m =>
      rw [Visit.Content.move] at turn
      rw [Visit.Content.move, Visit.Content.move]
      split at turn
      · cases turn
      next near => rw [if_neg near, if_neg fun deep => near (lower frame.depth deep)]

/-- A turn that is made under a lower limit is made under a higher one. -/
theorem move?_mono (lower : ∀ depth : Nat, high ≤ (depth : α) → low ≤ (depth : α)) {frame : Frame α}
    {v : Visit α}
    {move : Move α} (made : v.move? low frame = some move) (turn : move.isSkip = false) :
    v.move? high frame = some move := by
  obtain ⟨reached, found, rfl⟩ := Option.map_eq_some_iff.mp made
  rw [Visit.move?, descend?_mono lower found, Option.map_some, content_move_mono lower turn]

omit [Coordinate α] in
/-- Taking fewer values from the same places leaves a subsequence. -/
theorem filterMap_sublist {β γ : Type} {f g : β → Option γ} (xs : List β)
    (le : ∀ x y, f x = some y → g x = some y) :
    (xs.filterMap f).Sublist (xs.filterMap g) := by
  induction xs with
  | nil => exact List.nil_sublist _
  | cons x rest ih =>
    cases image : f x with
    | none =>
      rw [List.filterMap_cons_none image]
      exact ih.trans ((List.sublist_cons_self x rest).filterMap g)
    | some y =>
      rw [List.filterMap_cons_some image, List.filterMap_cons_some (le x y image)]
      exact ih.cons_cons y

theorem turns_eq (r : Request α) (limit : α) :
    (r.limited limit).turns = .consult r.rootFrame r.model.heading ::
      r.model.visits.filterMap fun v => (v.move? limit r.rootFrame).filter (! ·.isSkip) := by
  rw [Request.turns, Request.moves_eq_visits, List.filter_cons_of_pos (by rfl),
    List.filter_filterMap]
  rfl

omit [Coordinate α] in
theorem event?_of_skip {move : Move α} (skipped : move.isSkip = true) : move.event? = none := by
  cases move with
  | skip frame span heading => rfl
  | _ => cases skipped

theorem reports_limited (r : Request α) (low high : α) {move : Move α}
    (turn : move.isSkip = false) :
    move.reports (r.limited low) = move.reports (r.limited high) := by
  cases move with
  | skip frame span heading => cases turn
  | _ => rfl

omit [Coordinate α] in
theorem notice?_limited (r : Request α) (low high : α) {move : Move α}
    (turn : move.isSkip = false) :
    move.notice? (r.limited low) = move.notice? (r.limited high) := by
  cases move with
  | skip frame span heading => cases turn
  | _ => rfl

omit [Coordinate α] in
theorem flatMap_filter {β γ : Type} {p : β → Bool} {f : β → List γ} (xs : List β)
    (silent : ∀ x, p x = false → f x = []) :
    (xs.filter p).flatMap f = xs.flatMap f := by
  induction xs with
  | nil => rfl
  | cons x rest ih =>
    cases kept : p x with
    | true => rw [List.filter_cons_of_pos kept, List.flatMap_cons, List.flatMap_cons, ih]
    | false =>
      rw [List.filter_cons_of_neg (by simp [kept]), List.flatMap_cons, silent x kept,
        List.nil_append, ih]

end DepthLimitLemmas

open DepthLimitLemmas

/-- A lower limit makes a subsequence of the turns. -/
theorem Request.turns_sublist (r : Request α) {low high : α}
    (lower : ∀ depth : Nat, high ≤ (depth : α) → low ≤ (depth : α)) :
    (r.limited low).turns.Sublist (r.limited high).turns := by
  rw [turns_eq, turns_eq]
  refine (filterMap_sublist r.model.visits fun v move made => ?_).cons_cons _
  obtain ⟨found, turn⟩ := Option.filter_eq_some_iff.mp made
  have turn' : move.isSkip = false := by simpa using turn
  exact Option.filter_eq_some_iff.mpr ⟨move?_mono lower found turn', turn⟩

/-- Nothing but turns can be observed. -/
theorem Request.events_turns (r : Request α) :
    r.moves.filterMap Move.event? = r.turns.filterMap Move.event? := by
  rw [Request.turns, List.filterMap_filter]
  refine List.filterMap_congr fun move _ => ?_
  cases skipped : move.isSkip with
  | false => rfl
  | true => rw [event?_of_skip skipped]; rfl

/-- Only models that are laid out decorate. -/
theorem Request.decorations_turns (r : Request α) :
    r.gathered.decorations = r.turns.flatMap fun move => (move.reports r).decorations := by
  rw [Request.turns, flatMap_filter]
  · exact List.flatMap_map _ _ _
  · intro move skipped
    cases move with
    | skip frame span heading => rfl
    | _ => cases skipped

/-- A lower limit gathers a subsequence of what the models report. -/
theorem Request.reports_sublist (r : Request α) {low high : α}
    (lower : ∀ depth : Nat, high ≤ (depth : α) → low ≤ (depth : α)) {β : Type}
    (part : Feedback α → List β) :
    ((r.limited low).turns.flatMap fun move => part (move.reports (r.limited low))).Sublist
      ((r.limited high).turns.flatMap fun move => part (move.reports (r.limited high))) := by
  -- Only what is said of a model left out mentions the limit, and turns leave out none.
  have same : ((r.limited low).turns.flatMap fun move => part (move.reports (r.limited low))) =
      (r.limited low).turns.flatMap fun move => part (move.reports (r.limited high)) := by
    refine List.flatMap_congr fun move member => ?_
    have turn : move.isSkip = false := by simpa using (List.mem_filter.mp member).2
    rw [reports_limited r low high turn]
  rw [same]
  exact (r.turns_sublist lower).flatMap _

/-- No model is laid out inside more models than the limit says. -/
theorem Request.depth_le_of_consult (r : Request α) {bound : Int} (counts : CountsAs r.limit bound)
    {frame : Frame α} {heading : Heading α} (member : .consult frame heading ∈ r.moves) :
    (frame.depth : Int) ≤ max 0 bound := by
  rcases r.consult_cases member with ⟨rfl, _⟩ | ⟨v, span, m, outer, _, _, _, near, rfl, _⟩
  · exact Int.le_max_left 0 bound
  · have below := mt (counts outer.depth).mpr near
    have depth : (outer.inner span).depth = outer.depth + 1 := rfl
    omega

/-- Nothing is left out if no model node stands inside as many others as the limit says. -/
theorem Request.no_skip (r : Request α) {bound : Int} (counts : CountsAs r.limit bound)
    (shallow : ∀ v span m, Occurs r.model v → v.content = .node span (.model m) →
      (v.enclosing.length : Int) < max 0 bound)
    {move : Move α} (member : move ∈ r.moves) : move.isSkip = false := by
  cases move with
  | skip frame span heading =>
    obtain ⟨v, m, occurs, content, reached, deep⟩ := r.skip_cases member
    have inside := shallow v span m occurs content
    have depth : frame.depth = r.rootFrame.depth + v.enclosing.length :=
      Frame.depth_of_descend? reached
    have root : r.rootFrame.depth = 0 := rfl
    have limit := (counts frame.depth).mp deep
    omega
  | _ => rfl

omit [Coordinate α] in
/-- Without such nodes every place is reached. -/
theorem enclosing_le_of_shallow {m : Model α} {bound : Int}
    (shallow : ∀ v span sub, Occurs m v → v.content = .node span (.model sub) →
      (v.enclosing.length : Int) < max 0 bound)
    {v : Visit α} (occurs : Occurs m v) : v.enclosing.length ≤ bound.toNat := by
  -- The innermost node around a place is itself a model node, with one node less around it.
  rcases List.eq_nil_or_concat v.enclosing with top | ⟨outer, span, around⟩
  · rw [top]
    exact Nat.zero_le _
  · rw [List.concat_eq_append] at around
    obtain ⟨w, sub, held, rfl, content⟩ := occurs.node_around around
    have inside := shallow w span sub held content
    rw [around, List.length_append, List.length_singleton]
    omega

/-- If a limit leaves out nothing, a higher one makes the same moves. -/
theorem Request.moves_limited_eq (r : Request α) {low high : α} {bound : Int}
    (counts : CountsAs low bound) (lower : ∀ depth : Nat, high ≤ (depth : α) → low ≤ (depth : α))
    (shallow : ∀ v span m, Occurs r.model v → v.content = .node span (.model m) →
      (v.enclosing.length : Int) < max 0 bound) :
    (r.limited low).moves = (r.limited high).moves := by
  rw [Request.moves_eq_visits, Request.moves_eq_visits]
  refine congrArg (List.cons _) (List.filterMap_congr fun v visited => ?_)
  have near := enclosing_le_of_shallow shallow (Model.mem_visits_iff.mp visited)
  have reached := Frame.descend?_rootFrame (r := r.limited low) counts v.enclosing
  rw [if_pos near] at reached
  have made : v.move? low r.rootFrame =
      some (v.content.move low (v.enclosing.foldl Frame.inner r.rootFrame)) :=
    congrArg (Option.map _) reached
  have member : v.content.move low (v.enclosing.foldl Frame.inner r.rootFrame) ∈
      (r.limited low).moves := by
    rw [Request.moves_eq_visits]
    exact List.mem_cons_of_mem _ (List.mem_filterMap.mpr ⟨v, visited, made⟩)
  exact made.trans (move?_mono lower made ((r.limited low).no_skip counts shallow member)).symm

/-- Moves that leave out nothing do the same under every limit. -/
theorem Progress.after_limited (r : Request α) (low high : α) (p : Progress α)
    {moves : List (Move α)} (turn : ∀ move ∈ moves, move.isSkip = false) :
    p.after (r.limited low) moves = p.after (r.limited high) moves := by
  have notices : moves.filterMap (Move.notice? (r.limited low)) =
      moves.filterMap (Move.notice? (r.limited high)) :=
    List.filterMap_congr fun move member => notice?_limited r low high (turn move member)
  have reports : moves.map (Move.reports (r.limited low)) =
      moves.map (Move.reports (r.limited high)) :=
    List.map_congr_left fun move member => reports_limited r low high (turn move member)
  rw [Progress.after, Progress.after, notices, reports]

/-- Only a model that is laid out is noted as such. -/
theorem Request.IsCalm.consult_of_noted {r : Request α} (calm : r.IsCalm)
    (unraised : r.signal.raised = none)
    {modelClass : ModelClass} {depth : Nat} (noted : .layingOut modelClass depth ∈ r.run.notices) :
    ∃ frame heading, .consult frame heading ∈ r.moves ∧ frame.depth = depth := by
  rw [calm.run_notices unraised, List.mem_append] at noted
  rcases noted with noted | closing
  · obtain ⟨move, member, notice⟩ := List.mem_filterMap.mp noted
    cases move with
    | consult frame heading =>
      cases notice
      exact ⟨frame, heading, member, rfl⟩
    | call event => cases notice
    | skip frame span heading => cases notice
  · cases List.mem_singleton.mp closing

/-- Only a model that is left out is noted as such. -/
theorem Request.IsCalm.skip_of_noted {r : Request α} (calm : r.IsCalm)
    (unraised : r.signal.raised = none)
    {modelClass : ModelClass} {limit : α} {given : Option Json}
    (noted : .skipping modelClass limit given ∈ r.run.notices) :
    ∃ move ∈ r.moves, move.isSkip = true := by
  rw [calm.run_notices unraised, List.mem_append] at noted
  rcases noted with noted | closing
  · obtain ⟨move, member, notice⟩ := List.mem_filterMap.mp noted
    cases move with
    | consult frame heading => cases notice
    | call event => cases notice
    | skip frame span heading => exact ⟨_, member, rfl⟩
  · cases List.mem_singleton.mp closing

/-- A lower depth limit only truncates: it makes a subsequence of the calls and gathers a
subsequence of what the models report, and lays out no model that lies deeper than it says. If there
is no model node to leave out, the two layouts are the same and report nothing of the kind. -/
theorem lower_limit_truncates (r : Request α) (low high : α) (bound bound' : Int)
    (counts : CountsAs low bound)
    (counts' : CountsAs high bound') (le : bound ≤ bound') (calm : r.IsCalm)
    (unraised : r.signal.raised = none) :
    (r.limited low).turns.Sublist (r.limited high).turns ∧
    (r.limited low).run.events.Sublist (r.limited high).run.events ∧
    ((r.limited low).run.result = .ok (r.limited low).gathered ∧
      (r.limited high).run.result = .ok (r.limited high).gathered ∧
      (r.limited low).gathered.decorations.Sublist (r.limited high).gathered.decorations ∧
      (r.limited low).ownDiagnostics.Sublist (r.limited high).ownDiagnostics) ∧
    (∀ modelClass (depth : Nat), .layingOut modelClass depth ∈ (r.limited low).run.notices →
      (depth : Int) ≤ max 0 bound) ∧
    ((∀ v span m, Occurs r.model v → v.content = .node span (.model m) →
      (v.enclosing.length : Int) < max 0 bound) →
      (r.limited low).run = (r.limited high).run ∧
      (r.limited low).gathered.diagnostics = (r.limited low).ownDiagnostics ∧
      ∀ modelClass limit given,
        .skipping modelClass limit given ∉ (r.limited low).run.notices) := by
  have lower : ∀ depth : Nat, high ≤ (depth : α) → low ≤ (depth : α) := by
    intro depth deep
    exact (counts depth).mpr (le.trans ((counts' depth).mp deep))
  have lowCalm : (r.limited low).IsCalm := ⟨calm.model, calm.sink⟩
  have highCalm : (r.limited high).IsCalm := ⟨calm.model, calm.sink⟩
  refine ⟨r.turns_sublist lower, ?_,
    ⟨lowCalm.run_result unraised, highCalm.run_result unraised, ?_, ?_⟩, ?_, ?_⟩
  · rw [lowCalm.run_events unraised, highCalm.run_events unraised, Request.events_turns,
      Request.events_turns]
    exact (r.turns_sublist lower).filterMap Move.event?
  · rw [Request.decorations_turns, Request.decorations_turns]
    exact r.reports_sublist lower Feedback.decorations
  · exact r.reports_sublist lower Feedback.diagnostics
  · intro modelClass depth noted
    obtain ⟨frame, heading, member, rfl⟩ := lowCalm.consult_of_noted unraised noted
    exact (r.limited low).depth_le_of_consult counts member
  · intro shallow
    have turn : ∀ move ∈ (r.limited low).moves, move.isSkip = false :=
      fun move => (r.limited low).no_skip counts shallow
    refine ⟨?_, ?_, ?_⟩
    · rw [lowCalm.run_eq unraised, highCalm.run_eq unraised,
        ← r.moves_limited_eq counts lower shallow,
        Progress.after_limited r low high {} turn]
    · rw [Request.ownDiagnostics, Request.turns,
        List.filter_eq_self.mpr fun move member => by rw [turn move member]; rfl]
      exact List.flatMap_map _ _ _
    · intro modelClass limit given noted
      obtain ⟨move, member, skipped⟩ := lowCalm.skip_of_noted unraised noted
      rw [turn move member] at skipped
      cases skipped

/-- A document with a box inside a box. -/
def nestedBoxes : Request Int where
  model := .tree
    [⟨⟨⟨0, 2, 2⟩, ⟨1, 6, 12⟩⟩, .model (.body "outer"
      [⟨⟨⟨0, 1, 1⟩, ⟨0, 2, 2⟩⟩, .leaf .space⟩,
        ⟨⟨⟨1, 0, 4⟩, ⟨1, 5, 9⟩⟩, .model (.body "inner"
          [⟨⟨⟨0, 1, 1⟩, ⟨0, 3, 3⟩⟩, .leaf .linebreak⟩])⟩])⟩]
  limit := 64

/-- A limit of one cuts off the inner box, and one of two is as good as any higher. -/
theorem nestedBoxes_truncated :
    nestedBoxes.IsCalm ∧ nestedBoxes.signal.raised = none ∧
    (nestedBoxes.limited 1).run.events.Sublist (nestedBoxes.limited 2).run.events ∧
    (nestedBoxes.limited 1).run.events.length = 3 ∧ (nestedBoxes.limited 2).run.events.length = 6 ∧
    (nestedBoxes.limited 2).run = (nestedBoxes.limited 7).run := by
  have calm : nestedBoxes.IsCalm :=
    ⟨Model.everyModel_iff.mpr ⟨rfl, by
      simp [nestedBoxes, Model.visits, Model.itemVisits, Node.visits, Visit.Content.model?,
        Visit.under, Visit.inside, Model.reaction]⟩,
      fun _ => rfl⟩
  have shallow : ∀ v span m, Occurs nestedBoxes.model v → v.content = .node span (.model m) →
      (v.enclosing.length : Int) < max 0 2 := by
    intro v span m occurs content
    have visited := Model.mem_visits_iff.mpr occurs
    simp only [nestedBoxes, Model.visits, Model.itemVisits, Node.visits, Visit.under, Visit.inside,
      List.map_cons, List.map_nil, List.append_nil, List.nil_append, List.cons_append, List.mem_cons,
      List.not_mem_nil, or_false] at visited
    -- Of the eight places only the two boxes are model nodes.
    rcases visited with rfl | rfl | rfl | rfl | rfl | rfl | rfl | rfl <;> cases content
    · decide
    · decide
  have cut := lower_limit_truncates nestedBoxes 1 2 1 2 (countsAs_self 1) (countsAs_self 2)
    (by decide) calm rfl
  have whole := lower_limit_truncates nestedBoxes 2 7 2 7 (countsAs_self 2) (countsAs_self 7)
    (by decide) calm rfl
  exact ⟨calm, rfl, cut.2.1, rfl, rfl, (whole.2.2.2.2 shallow).1⟩

end Folio
