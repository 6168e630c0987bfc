import Folio.Proofs.Course
import Folio.Proofs.Interruption
import Folio.Session.Layout

/-!
# The log of a layout

A layout logs every model that it turns to and every model that it leaves out, and a last entry with
the number of its reports if it succeeds. So the log can be held against what happened: against the
calls that were made, the places of the model, and the feedback that was returned.

1. `Request.layoutLog_eq`: the entries of the layout service are what the layout notes.
2. `Request.notices_eq_visits`: what is noted, read off the places of the model.
3. `length_diagnostics_reports`: each diagnostic is a model's own or goes with a warning.
4. `log_agrees_with_layout`: all of it for whole layouts, interrupted or not.
-/

namespace Folio

/-- What the layout service has logged when a layout is over. -/
def Request.layoutLog (r : Request Float) : List Log.Entry :=
  r.observe.entries.filter (·.service == .layout)

section

variable {α : Type} [Coordinate α]

/-- What a model that is laid out shows; other moves lay out none. -/
def Move.heading? : Move α → Option (Heading α)
  | .consult _ heading => some heading
  | _ => none

/-- What is noted at a place: that the model there is laid out, inside its own node and those around
it, or that it is left out. -/
def Visit.notice? (r : Request α) (v : Visit α) : Option (LayoutNotice α) :=
  match v.content with
  | .node _ (.model m) =>
    if v.Reached r.limit then
      if r.limit ≤ (v.enclosing.length : α) then some (.skipping m.modelClass r.limit r.givenLimit)
      else some (.layingOut m.modelClass (v.enclosing.length + 1))
    else none
  | _ => none

/-! ## What is noted -/

theorem Visit.notice?_eq (r : Request α) (v : Visit α) :
    (v.move? r.limit r.rootFrame).bind (Move.notice? r) = v.notice? r := by
  rw [Visit.move?_eq, Visit.notice?]
  cases v.content with
  | instruction x => split <;> rfl
  | node span node =>
    cases node with
    | leaf content => split <;> rfl
    | model m =>
      by_cases reached : v.Reached r.limit
      · rw [if_pos reached]
        simp only [reached, if_true, Option.bind_some, Visit.Content.move]
        split
        · rfl
        · rfl
      · rw [if_neg reached]
        simp [reached]

/-- What the moves of a layout note, read off the places of the model. -/
theorem Request.notices_eq_visits (r : Request α) :
    r.moves.filterMap (Move.notice? r) =
      .layingOut r.model.modelClass 0 :: r.model.visits.filterMap (Visit.notice? r) := by
  rw [r.moves_eq_visits, List.filterMap_cons_some (by rfl), List.filterMap_filterMap]
  refine congrArg (List.cons _) (List.filterMap_congr fun v _ => ?_)
  exact Visit.notice?_eq r v

end

namespace LayoutLogLemmas

theorem service_notice (notice : LayoutNotice Float) : notice.entry.service = .layout := by
  cases notice <;> rfl

theorem service_badCopy (bad : BadCopy) : bad.entry.service = .model := by
  unfold BadCopy.entry
  split <;> rfl

theorem report_observe (r : Request Float) : r.observe.report = r.run := by
  unfold Request.observe Observation.ofReport
  split <;> rfl

end LayoutLogLemmas

open LayoutLogLemmas

/-- The entries of the layout service are what the layout notes; copies that go wrong are logged by
another service. -/
theorem Request.layoutLog_eq (r : Request Float) :
    r.layoutLog = r.run.notices.map LayoutNotice.entry := by
  have copies : (r.observe.copyLog.map BadCopy.entry).filter (·.service == .layout) = [] := by
    rw [List.filter_eq_nil_iff, List.forall_mem_map]
    intro bad _
    rw [service_badCopy]
    decide
  have notices : (r.run.notices.map LayoutNotice.entry).filter (·.service == .layout) =
      r.run.notices.map LayoutNotice.entry := by
    rw [List.filter_eq_self, List.forall_mem_map]
    intro notice _
    rw [service_notice]
    rfl
  rw [Request.layoutLog, Observation.entries, report_observe, List.filter_append, copies, notices,
    List.nil_append]

/-! ## What is reported -/

/-- Whether an entry is a warning. -/
def Log.Entry.isWarning (e : Log.Entry) : Bool := e.level == .warn

/-- Every diagnostic is reported by a model that is laid out or goes with a warning. -/
theorem length_diagnostics_reports (r : Request Float) (moves : List (Move Float)) :
    (Feedback.concat (moves.map (Move.reports r))).diagnostics.length =
      ((moves.filterMap Move.heading?).flatMap (·.feedback.diagnostics)).length +
      ((moves.filterMap (Move.notice? r)).map LayoutNotice.entry).countP Log.Entry.isWarning := by
  induction moves with
  | nil => rfl
  | cons move rest ih =>
    rw [List.map_cons, Feedback.concat_cons, Feedback.merge, List.length_append, ih]
    cases move with
    | consult frame heading =>
      -- Its own diagnostics are moved, which leaves their number.
      have own : (Move.reports r (.consult frame heading)).diagnostics.length =
          heading.feedback.diagnostics.length := List.length_map _
      rw [own, List.filterMap_cons_some (by rfl), List.filterMap_cons_some (by rfl), List.flatMap_cons,
        List.length_append, List.map_cons, List.countP_cons_of_neg Bool.false_ne_true, Nat.add_assoc]
    | call event =>
      rw [List.filterMap_cons_none (by rfl), List.filterMap_cons_none (by rfl)]
      exact Nat.zero_add _
    | skip frame span heading =>
      have own : (Move.reports r (.skip frame span heading)).diagnostics.length = 1 := rfl
      rw [own, List.filterMap_cons_none (by rfl), List.filterMap_cons_some (by rfl), List.map_cons,
        List.countP_cons_of_pos (by rfl)]
      omega

/-! ## Whole layouts -/

/-- A layout notes what the calm one notes, up to where it ends. -/
theorem Request.notices_prefix_calmed {α : Type} [Coordinate α] (r : Request α) :
    r.run.notices <+: r.calmed.run.notices := by
  cases r.course with
  | calledOff reason raised made run =>
    rw [run]
    exact List.nil_prefix
  | completed unraised calm made run =>
    have same : r.run = r.calmed.run := run.trans (r.run_calmed unraised).symm
    exact ⟨[], by rw [List.append_nil, same]⟩
  | cutShort before after move stop unraised split calm hit made run =>
    have noted : r.run.notices <+: r.moves.filterMap (Move.notice? r) := by
      rw [run]
      exact r.made_prefix.filterMap _
    rw [r.run_calmed unraised]
    exact noted.trans (List.prefix_append _ _)

/-- The last entry of a layout that succeeds is not written at any other time. -/
theorem message_of_notice? {r : Request Float} {move : Move Float} {notice : LayoutNotice Float}
    (noted : move.notice? r = some notice) : notice.entry.message ≠ "Layout finished" := by
  cases move with
  | consult frame heading =>
    cases noted
    exact show "Laying out model" ≠ "Layout finished" by decide
  | call event => cases noted
  | skip frame span heading =>
    cases noted
    exact show "Skipping submodel beyond maximum depth" ≠ "Layout finished" by decide

theorem finished_iff (r : Request Float) :
    (∃ entry ∈ r.layoutLog, entry.message = "Layout finished") ↔
      ∃ feedback, r.run.result = .ok feedback := by
  rw [r.layoutLog_eq, r.run_notices, LayoutReport.closing]
  constructor
  · rintro ⟨entry, member, message⟩
    obtain ⟨notice, noted, rfl⟩ := List.mem_map.mp member
    cases ended : r.run.result with
    | ok feedback => exact ⟨feedback, rfl⟩
    | error stop =>
      rw [ended, List.append_nil] at noted
      obtain ⟨move, _, shown⟩ := List.mem_filterMap.mp noted
      exact absurd message (message_of_notice? shown)
  · rintro ⟨feedback, succeeds⟩
    rw [succeeds]
    exact ⟨_, List.mem_map_of_mem (List.mem_append_right _ (List.mem_singleton_self _)), rfl⟩

/-- The log of a layout, whoever interferes, holds an entry for each model that it turned to and a
warning for each that it left out, in the order in which this happened and as the places of the model
say; and one more at the end if the layout succeeds, and only then. The diagnostics of a layout that
succeeds are those of the models it turned to and one for each warning. -/
theorem log_agrees_with_layout (r : Request Float) (visits : List (Visit Float))
    (enumerated : Enumerates visits r.model) :
    r.made <+: r.moves ∧
    r.run.events = r.made.filterMap Move.event? ∧
    r.layoutLog = (r.made.filterMap (Move.notice? r) ++ r.run.closing).map LayoutNotice.entry ∧
    r.made.filterMap (Move.notice? r) <+:
      .layingOut r.model.modelClass 0 :: visits.filterMap (Visit.notice? r) ∧
    ((∃ entry ∈ r.layoutLog, entry.message = "Layout finished") ↔
      ∃ feedback, r.run.result = .ok feedback) ∧
    (∀ feedback, r.run.result = .ok feedback →
      r.made.filterMap (Move.notice? r) =
        .layingOut r.model.modelClass 0 :: visits.filterMap (Visit.notice? r) ∧
      feedback = .concat (r.made.map (Move.reports r)) ∧
      feedback.diagnostics.length =
        ((r.made.filterMap Move.heading?).flatMap (·.feedback.diagnostics)).length +
        r.layoutLog.countP Log.Entry.isWarning) ∧
    r.layoutLog <+: r.calmed.layoutLog := by
  have log : r.layoutLog =
      (r.made.filterMap (Move.notice? r) ++ r.run.closing).map LayoutNotice.entry := by
    rw [r.layoutLog_eq, r.run_notices]
  rw [enumerated.unique r.model.visits_enumerates, ← r.notices_eq_visits]
  refine ⟨r.made_prefix, r.run_events, log, r.made_prefix.filterMap _, finished_iff r, ?_, ?_⟩
  · intro feedback succeeds
    obtain ⟨made, rfl⟩ := r.run_ok succeeds
    have closing : (r.run.closing.map LayoutNotice.entry).countP Log.Entry.isWarning = 0 := by
      rw [LayoutReport.closing, succeeds]
      rfl
    refine ⟨by rw [made], by rw [made]; rfl, ?_⟩
    rw [log, List.map_append, List.countP_append, closing, Nat.add_zero, Request.gathered, ← made,
      length_diagnostics_reports]
  · rw [r.layoutLog_eq, r.calmed.layoutLog_eq]
    exact r.notices_prefix_calmed.map LayoutNotice.entry

/-- A script that reports something itself, and a box with a call that lies too deep. -/
def warnedPage : Request Float where
  model := .tree
    [⟨.zero, .model (.script
        { document := .null, feedback := { diagnostics := [Diagnostic.warningAt .zero "odd"] } } [])⟩,
      ⟨.zero, .model (.body "box" [⟨.zero, .model (.call .function "nope" [])⟩])⟩]
  limit := 1

/-- The two diagnostics are the one of the script and the one that goes with the warning. -/
theorem warnedPage_log_agrees :
    Enumerates warnedPage.model.visits warnedPage.model ∧
    warnedPage.layoutLog =
      [⟨.layout, .debug, "Laying out model", some (.obj [("model", .str "SyntaxModel"), ("depth", .nat 0)])⟩,
        ⟨.layout, .debug, "Laying out model", some (.obj [("model", .str "ScriptModel"), ("depth", .nat 1)])⟩,
        ⟨.layout, .debug, "Laying out model", some (.obj [("model", .str "BodyCall"), ("depth", .nat 1)])⟩,
        ⟨.layout, .warn, "Skipping submodel beyond maximum depth",
          some (.obj [("model", .str "FuncCall"), ("maxDepth", .num 1)])⟩,
        ⟨.layout, .debug, "Layout finished", some (.obj [("diagnostics", .nat 2), ("decorations", .nat 0)])⟩] ∧
    ∃ feedback, warnedPage.run.result = .ok feedback ∧ feedback.diagnostics.length = 1 + 1 := by
  have enumerated := warnedPage.model.visits_enumerates
  obtain ⟨_, _, log, _, _, counted, _⟩ :=
    log_agrees_with_layout warnedPage warnedPage.model.visits enumerated
  obtain ⟨_, _, number⟩ := counted warnedPage.gathered rfl
  rw [log] at number
  exact ⟨enumerated, log, warnedPage.gathered, rfl, number⟩

end Folio
