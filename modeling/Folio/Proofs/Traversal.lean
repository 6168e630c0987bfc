import Folio.Proofs.Effects

/-!
# What a layout hands out and reports

The calls of the sink and the feedback of a layout that nobody interferes with, read off the places
of the model alone: how many model nodes stand around a place decides whether it is reached, and
where these start decides where it lies in the document.

Main result: `run_enumerates`.
-/

namespace Folio

variable {α : Type} [Coordinate α]

/-- Whether an event is a call of the sink. -/
def Event.isSinkCall : Event α → Bool
  | .script _ _ => false
  | _ => true

namespace Visit

/-- Where the model that a place belongs to starts in the document: each model node around the place
moves what is inside it. -/
def origin (v : Visit α) : Position α := v.enclosing.foldl
    (fun origin span => span.start.offsetBy origin) .zero

/-- The context at a place. -/
def context (root : Context) (v : Visit α) : Context :=
  if v.enclosing.isEmpty then root else root.inner

/-- The call of the sink at a place, when models inside more than `limit` others are left out. -/
def sinkCall? (limit : Nat) (root : Context) (v : Visit α) : Option (Event α) :=
  if v.enclosing.length ≤ limit then
    match v.content with
    | .instruction x => some (.command x (v.context root))
    | .node span (.leaf content) => some (.node (span.offsetBy v.origin) content (v.context root))
    | .node _ (.model _) => none
  else none

/-- What is reported at a place: the feedback of the model there, or that it lies too deep. -/
def reports (limit : Nat) (message : String) (v : Visit α) : Feedback α :=
  match v.content with
  | .node span (.model m) =>
    if v.enclosing.length < limit then m.feedback.offsetBy (span.start.offsetBy v.origin)
    else if v.enclosing.length = limit then
      { diagnostics := [Diagnostic.errorAt (span.offsetBy v.origin) message] }
    else .empty
  | _ => .empty

end Visit

namespace TraversalLemmas

/-- The frame inside nested model nodes, in full. -/
theorem foldl_inner (v : Visit α) (r : Request α) :
    v.enclosing.foldl Frame.inner r.rootFrame =
    ⟨v.context r.rootContext, v.enclosing.length, v.origin⟩ := by
  have general : ∀ (spans : List (Span α)) (frame : Frame α),
      spans.foldl Frame.inner frame =
        ⟨if spans.isEmpty then frame.context else frame.context.inner, frame.depth + spans.length,
          spans.foldl (fun origin span => span.start.offsetBy origin) frame.origin⟩ := by
    intro spans
    induction spans with
    | nil => intro frame; rfl
    | cons span rest ih =>
      intro frame
      rw [List.foldl_cons, ih]
      cases rest with
      | nil => rfl
      | cons next rest => simp [Frame.inner]; omega
  rw [general]
  simp [Request.rootFrame, Visit.context, Visit.origin]

/-- The move at a place under a whole limit. -/
theorem move?_rootFrame {r : Request α} {bound : Int} (counts : CountsAs r.limit bound)
    (v : Visit α) :
    v.move? r.limit r.rootFrame =
      if v.enclosing.length ≤ bound.toNat then
        some (v.content.move r.limit ⟨v.context r.rootContext, v.enclosing.length, v.origin⟩)
      else none := by
  rw [Visit.move?, Frame.descend?_rootFrame counts, foldl_inner]
  split
  · rfl
  · rfl

omit [Coordinate α] in
/-- Turning to a model is no call of the sink. -/
theorem consult_noSinkCall (frame : Frame α) (heading : Heading α) :
    (Move.consult frame heading).event?.filter Event.isSinkCall = none := by
  rw [Move.event?]
  cases heading.announces with
  | none => rfl
  | some id => rfl

theorem sinkCall_move {r : Request α} {bound : Int} (counts : CountsAs r.limit bound)
    (v : Visit α) :
    ((v.move? r.limit r.rootFrame).bind Move.event?).filter Event.isSinkCall =
      v.sinkCall? bound.toNat r.rootContext := by
  rw [move?_rootFrame counts, Visit.sinkCall?]
  by_cases reached : v.enclosing.length ≤ bound.toNat
  · rw [if_pos reached, if_pos reached]
    cases v.content with
    | instruction x => rfl
    | node span node =>
      cases node with
      | leaf content => rfl
      | model m =>
        rw [Visit.Content.move]
        split
        · rfl
        · exact consult_noSinkCall _ _
  · rw [if_neg reached, if_neg reached]
    rfl

theorem reports_move {r : Request α} {bound : Int} (counts : CountsAs r.limit bound) (v : Visit α) :
    ((v.move? r.limit r.rootFrame).map (Move.reports r)).getD .empty =
    v.reports bound.toNat r.depthMessage := by
  have edge := counts v.enclosing.length
  rw [move?_rootFrame counts, Visit.reports]
  cases v.content with
  | instruction x => split <;> rfl
  | node span node =>
    cases node with
    | leaf content => split <;> rfl
    | model m =>
      simp only [Visit.Content.move]
      by_cases inner : v.enclosing.length < bound.toNat
      · rw [if_pos inner, if_pos (by omega), if_neg (by rw [edge]; omega)]
        rfl
      · rw [if_neg inner]
        by_cases last : v.enclosing.length = bound.toNat
        · rw [if_pos last, if_pos (by omega), if_pos (by rw [edge]; omega)]
          rfl
        · rw [if_neg last, if_neg (by omega)]
          rfl

omit [Coordinate α] in
/-- Leaving out what reports nothing does not change what is reported. -/
theorem concat_filterMap {β γ : Type} (f : β → Option γ) (g : γ → Feedback α) (xs : List β) :
    Feedback.concat ((xs.filterMap f).map g) =
    .concat (xs.map fun x => ((f x).map g).getD .empty) := by
  induction xs with
  | nil => rfl
  | cons x rest ih =>
    rw [Feedback.concat, Feedback.concat, Feedback.mk.injEq] at ih ⊢
    cases image : f x with
    | none => simpa [List.filterMap_cons, image, Feedback.empty] using ih
    | some y => simpa [List.filterMap_cons, image] using ih

end TraversalLemmas

open TraversalLemmas

/-- The calls of the sink and the feedback of a layout enumerate the places of the model in document
order. Only a signal that was raised before the start keeps a layout that nobody interferes with
from succeeding. -/
theorem run_enumerates (r : Request α) (bound : Int) (counts : CountsAs r.limit bound)
    (calm : r.IsCalm) :
    (∃! visits, Enumerates visits r.model) ∧
    ∀ visits, Enumerates visits r.model →
      (∀ reason, r.signal.raised = some reason → r.run =
        ⟨[], [], .error (.abandoned reason)⟩) ∧
      (r.signal.raised = none →
        r.run.events.filter Event.isSinkCall =
        visits.filterMap (Visit.sinkCall? bound.toNat r.rootContext) ∧
        r.run.result = .ok (.concat
          (r.model.feedback.offsetBy .zero :: visits.map
            (Visit.reports bound.toNat r.depthMessage)))) := by
  refine ⟨⟨r.model.visits, r.model.visits_enumerates,
    fun other enumerated => enumerated.unique r.model.visits_enumerates⟩, ?_⟩
  intro visits enumerated
  rw [enumerated.unique r.model.visits_enumerates]
  refine ⟨r.run_raised, fun unraised => ?_⟩
  rw [calm.run_events unraised, calm.run_result unraised, Request.gathered, r.moves_eq_visits]
  constructor
  · calc
      ((.consult r.rootFrame r.model.heading ::
          r.model.visits.filterMap (Visit.move? r.limit r.rootFrame)).filterMap Move.event?).filter
            Event.isSinkCall
        = r.model.visits.filterMap fun v =>
            ((v.move? r.limit r.rootFrame).bind Move.event?).filter Event.isSinkCall := by
          rw [List.filter_filterMap, List.filterMap_cons, consult_noSinkCall,
            List.filterMap_filterMap]
          refine List.filterMap_congr fun v _ => ?_
          cases v.move? r.limit r.rootFrame <;> rfl
      _ = r.model.visits.filterMap (Visit.sinkCall? bound.toNat r.rootContext) :=
          List.filterMap_congr fun v _ => sinkCall_move counts v
  · have inside : Feedback.concat
        ((r.model.visits.filterMap (Visit.move? r.limit r.rootFrame)).map (Move.reports r)) =
          .concat (r.model.visits.map (Visit.reports bound.toNat r.depthMessage)) := by
      rw [concat_filterMap]
      exact congrArg Feedback.concat (List.map_congr_left fun v _ => reports_move counts v)
    rw [List.map_cons, Feedback.concat_cons, inside, ← Feedback.concat_cons]
    rfl

/-- A document with a box that holds a call and a scripted model, both too deep for the limit. -/
def boxedCall : Request Int where
  model := .tree
    [⟨⟨⟨0, 0, 0⟩, ⟨0, 1, 1⟩⟩, .leaf .space⟩,
      ⟨⟨⟨0, 1, 1⟩, ⟨1, 4, 9⟩⟩, .model (.body "box"
        [⟨⟨⟨0, 2, 2⟩, ⟨0, 4, 4⟩⟩, .leaf (.text "in")⟩,
          ⟨⟨⟨0, 4, 4⟩, ⟨0, 5, 5⟩⟩, .model (.script { document := .null } [.instruct .finishLine])⟩,
          ⟨⟨⟨1, 0, 6⟩, ⟨1, 3, 9⟩⟩, .model (.call .function "nope" [])⟩])⟩]
  limit := 1

theorem boxedCall_calm : boxedCall.IsCalm where
  model := Model.everyModel_iff.mpr ⟨rfl, by
    simp [boxedCall, Model.visits, Model.itemVisits, Node.visits, Model.commandVisits,
      Command.visits, Visit.Content.model?, Visit.under, Visit.inside, Model.reaction]⟩
  sink _ := rfl

/-- Columns move on the first line of the box only, and both models in it are reported as too deep.
-/
theorem boxedCall_enumerates :
    CountsAs boxedCall.limit 1 ∧ boxedCall.IsCalm ∧ boxedCall.signal.raised = none ∧
    boxedCall.run.events.filter Event.isSinkCall =
      [.node ⟨⟨0, 0, 0⟩, ⟨0, 1, 1⟩⟩ .space {},
        .command (.engine (.opening "box")) { nested := .bool true },
        .node ⟨⟨0, 3, 3⟩, ⟨0, 5, 5⟩⟩ (.text "in") { nested := .bool true },
        .command (.engine (.closing "box")) { nested := .bool true }] ∧
    boxedCall.run.result = .ok
      { diagnostics :=
          [Diagnostic.errorAt ⟨⟨0, 5, 5⟩, ⟨0, 6, 6⟩⟩ "maximum layout depth of 1 exceeded",
            Diagnostic.errorAt ⟨⟨1, 0, 7⟩, ⟨1, 3, 10⟩⟩ "maximum layout depth of 1 exceeded"] } := by
  have counts : CountsAs boxedCall.limit 1 := countsAs_self 1
  have enumerated := run_enumerates boxedCall 1 counts boxedCall_calm
  exact ⟨counts, boxedCall_calm, rfl,
    (enumerated.2 boxedCall.model.visits boxedCall.model.visits_enumerates).2 rfl⟩

/-- A layout that was called off before its start. -/
def calledOff : Request Int where
  model := .tree []
  context := { signal := .live (some .unspecified) }
  limit := 64

/-- That no participant interferes is not enough for a layout to succeed. -/
theorem calledOff_fails : CountsAs calledOff.limit 64 ∧ calledOff.IsCalm ∧ ∀ feedback,
    calledOff.run.result ≠ .ok feedback := by
  refine ⟨countsAs_self 64, ⟨Model.everyModel_iff.mpr
    ⟨rfl, by simp [calledOff, Model.visits, Model.itemVisits]⟩, fun _ => rfl⟩, ?_⟩
  intro feedback succeeded
  rw [calledOff.run_raised .unspecified rfl] at succeeded
  cases succeeded

end Folio
