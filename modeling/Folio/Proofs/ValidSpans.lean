import Folio.Proofs.Course
import Folio.Proofs.Covering

/-!
# Layouts keep spans valid

Only the checked way of building a span looks at its ends. A layout never takes that way: it moves
the spans that nodes and models come with, frame by frame, and whoever gathers spans lets one grow.
None of this makes a span end before it starts.

1. `Span.valid_offsetBy`, `Span.Valid.merge`: what one operation keeps.
2. `Request.moves_sound`: every move of a layout shows and reports valid spans.
3. `reported_spans_valid`: what whole layouts report.
-/

namespace Folio

/-! ## Spans -/

/-- The span does not end before it starts. -/
def Span.Valid (s : Span Int) : Prop := s.start ≤ s.stop

namespace Span

theorem valid_offsetBy {s : Span Int} (start : Position Int) :
    (s.offsetBy start).Valid ↔ s.Valid :=
  Position.offsetBy_le_offsetBy start

theorem Valid.merge {a b : Span Int} (valid : a.Valid) : (a.merge b).Valid :=
  calc
    (a.merge b).start ≤ a.start := (merge_covers a b).1.1
    _ ≤ a.stop := valid
    _ ≤ (a.merge b).stop := (merge_covers a b).1.2

/-- A span that grows over others one by one stays valid. -/
theorem Valid.foldl_merge {first : Span Int} (valid : first.Valid) (rest : List (Span Int)) :
    (rest.foldl Span.merge first).Valid := by
  induction rest generalizing first with
  | nil => exact valid
  | cons next rest ih => exact ih valid.merge

end Span

theorem Feedback.EverySpan.offsetBy {f : Feedback Int} (valid : f.EverySpan Span.Valid)
    (start : Position Int) : (f.offsetBy start).EverySpan Span.Valid := by
  constructor
  · intro d moved
    obtain ⟨item, member, rfl⟩ := List.mem_map.mp moved
    exact (Span.valid_offsetBy start).mpr (valid.1 item member)
  · intro d moved
    obtain ⟨item, member, rfl⟩ := List.mem_map.mp moved
    exact (Span.valid_offsetBy start).mpr (valid.2 item member)

/-! ## Models -/

theorem Feedback.everySpan_empty {P : Span Int → Prop} : Feedback.empty.EverySpan P :=
  ⟨by simp [Feedback.empty], by simp [Feedback.empty]⟩

theorem nameSpan_valid (name : String) : (nameSpan name : Span Int).Valid := by
  have length : (1 : Int) ≤ 1 + Text.units name := by omega
  exact Position.le_iff.mpr (.inr ⟨rfl, length⟩)

/-- A call reports and marks nothing but its name. -/
theorem callFeedback_valid (name : String) :
    (callFeedback name : Feedback Int).EverySpan Span.Valid := by
  have valid := nameSpan_valid name
  unfold callFeedback
  split
  · exact ⟨by simp, by simpa using valid⟩
  · exact ⟨by simpa [Diagnostic.errorAt] using valid, by simpa using valid⟩

/-- Only scripts bring spans of their own making. -/
theorem Model.feedback_valid {m : Model Int}
    (script : m.isScript = true → m.feedback.EverySpan Span.Valid) :
    m.feedback.EverySpan Span.Valid := by
  cases m with
  | call kind name args =>
    cases kind with
    | macroCall => exact Feedback.everySpan_empty
    | function => exact callFeedback_valid name
    | method => exact callFeedback_valid name
  | script head commands => exact script rfl
  | body | tree | aliasing | shapeShifting => exact Feedback.everySpan_empty

/-! ## Moves -/

/-- Every span that the move shows or reports is valid. -/
structure Move.Sound (r : Request Int) (move : Move Int) : Prop where
  shown : ∀ event span, move.event? = some event → event.nodeSpan? = some span → span.Valid
  reported : (move.reports r).EverySpan Span.Valid

namespace ValidSpansLemmas

theorem sound_consult (r : Request Int) (frame : Frame Int) {heading : Heading Int}
    (valid : heading.feedback.EverySpan Span.Valid) : (Move.consult frame heading).Sound r where
  shown event span shows node := by
    obtain ⟨id, _, rfl⟩ := Option.map_eq_some_iff.mp shows
    cases node
  reported := valid.offsetBy frame.origin

/-- What a layout does at a place is sound if what stands there is. -/
theorem sound_move (r : Request Int) (frame : Frame Int) (content : Visit.Content Int)
    (node : ∀ span n, content = .node span n → span.Valid)
    (model : ∀ span m, content = .node span (.model m) → m.feedback.EverySpan Span.Valid) :
    (content.move r.limit frame).Sound r := by
  cases content with
  | instruction x =>
    refine ⟨fun event span shows isNode => ?_, Feedback.everySpan_empty⟩
    cases shows
    cases isNode
  | node span n =>
    have moved := (Span.valid_offsetBy frame.origin).mpr (node span n rfl)
    cases n with
    | leaf content =>
      refine ⟨fun event shown shows isNode => ?_, Feedback.everySpan_empty⟩
      cases shows
      cases isNode
      exact moved
    | model m =>
      show Move.Sound r (if r.limit ≤ frame.depth then .skip frame span m.heading
        else .consult (frame.inner span) m.heading)
      split
      · refine ⟨fun event shown shows _ => ?_, ?_, by simp [Move.reports]⟩
        · cases shows
        · simpa [Move.reports, Diagnostic.errorAt] using moved
      · exact sound_consult r (frame.inner span) (model span m rfl)

end ValidSpansLemmas

open ValidSpansLemmas

/-- A layout turns to its model, and then does what is to be done at the places of the model. -/
theorem Request.move_cases (r : Request Int) {move : Move Int} (member : move ∈ r.moves) :
    move = .consult r.rootFrame r.model.heading ∨
    ∃ v frame, Occurs r.model v ∧ move = v.content.move r.limit frame := by
  rw [r.moves_eq_visits, List.mem_cons] at member
  rcases member with root | inside
  · exact .inl root
  · obtain ⟨v, visited, made⟩ := List.mem_filterMap.mp inside
    obtain ⟨frame, _, rfl⟩ := Option.map_eq_some_iff.mp made
    exact .inr ⟨v, frame, Model.mem_visits_iff.mp visited, rfl⟩

theorem Request.moves_sound (r : Request Int)
    (nodes : ∀ v span n, Occurs r.model v → v.content = .node span n → span.Valid)
    (scripts : r.model.EveryModel fun m => m.isScript = true → m.feedback.EverySpan Span.Valid) :
    ∀ move ∈ r.moves, move.Sound r := by
  intro move member
  rcases r.move_cases member with rfl | ⟨v, frame, occurs, rfl⟩
  · exact sound_consult r r.rootFrame (Model.feedback_valid scripts.1)
  · refine sound_move r frame v.content (fun span n => nodes v span n occurs) ?_
    intro span m content
    exact Model.feedback_valid (scripts.2 v span m occurs content)

/-! ## Whole layouts -/

/-- `report.Reports span`: the span is that of a node handed out, of a diagnostic or of a
decoration. -/
inductive LayoutReport.Reports (report : LayoutReport Int) : Span Int → Prop
  | node {span : Span Int} {content : Leaf} {context : Context} :
      .node span content context ∈ report.events → Reports report span
  | diagnostic {feedback : Feedback Int} {span : Span Int} {said : Diagnostic} :
      report.result = .ok feedback → ⟨span, said⟩ ∈ feedback.diagnostics → Reports report span
  | decoration {feedback : Feedback Int} {span : Span Int} {tag : Decoration} :
      report.result = .ok feedback → ⟨span, tag⟩ ∈ feedback.decorations → Reports report span

/-- Where no node and no script comes with a span that ends before it starts, a layout reports no
such span, whatever the limit and whoever interferes. Nor can one be had by letting a reported span
grow over others. -/
theorem reported_spans_valid (r : Request Int)
    (nodes : ∀ v span n, Occurs r.model v → v.content = .node span n → span.Valid)
    (scripts : r.model.EveryModel fun m => m.isScript = true → m.feedback.EverySpan Span.Valid) :
    (∀ span, r.run.Reports span → span.Valid) ∧
    ∀ first rest, (∀ span ∈ first :: rest, r.run.Reports span) →
      (rest.foldl Span.merge first).Valid := by
  have sound := r.moves_sound nodes scripts
  have valid : ∀ span, r.run.Reports span → span.Valid := by
    intro span reported
    cases reported with
    | @node span content context shown =>
      obtain ⟨move, member, shows⟩ := List.mem_filterMap.mp (r.run_of_moves.1.subset shown)
      exact (sound move member).shown _ span shows rfl
    | @diagnostic feedback span said succeeds member =>
      rw [r.run_of_moves.2 feedback succeeds] at member
      obtain ⟨_, bundle, own⟩ := List.mem_flatMap.mp member
      obtain ⟨move, made, rfl⟩ := List.mem_map.mp bundle
      exact (sound move made).reported.1 ⟨span, said⟩ own
    | @decoration feedback span tag succeeds member =>
      rw [r.run_of_moves.2 feedback succeeds] at member
      obtain ⟨_, bundle, own⟩ := List.mem_flatMap.mp member
      obtain ⟨move, made, rfl⟩ := List.mem_map.mp bundle
      exact (sound move made).reported.2 ⟨span, tag⟩ own
  refine ⟨valid, fun first rest reported => ?_⟩
  exact (valid first (reported first (by simp))).foldl_merge rest

/-- A box that starts above the first line, with a space and a script that lies too deep, and
another script behind it that reports something above its own start. -/
def skewedBox : Request Int where
  model := .tree
    [⟨⟨⟨-1, 3, 0⟩, ⟨0, -2, 7⟩⟩, .model (.body "box"
        [⟨⟨⟨0, 2, 2⟩, ⟨1, 0, 6⟩⟩, .leaf .space⟩,
          ⟨⟨⟨1, 0, 6⟩, ⟨1, 0, 6⟩⟩, .model (.script { document := .null } [])⟩])⟩,
      ⟨⟨⟨2, 0, 9⟩, ⟨2, 4, 13⟩⟩, .model (.script
        { document := .null
          feedback := { diagnostics := [Diagnostic.warningAt ⟨⟨-2, 8, 0⟩, ⟨0, 5, 5⟩⟩ "late"] } } [])⟩]
  limit := 1

theorem skewedBox_nodes :
    ∀ v span n, Occurs skewedBox.model v → v.content = .node span n → span.Valid :=
  Model.forall_node_iff.mpr (by
    simp [skewedBox, Model.visits, Model.itemVisits, Node.visits, Model.commandVisits, Visit.under,
      Visit.inside, Visit.Content.item?, Span.Valid, Position.le_iff])

theorem skewedBox_scripts : skewedBox.model.EveryModel fun m =>
    m.isScript = true → m.feedback.EverySpan Span.Valid :=
  Model.everyModel_iff.mpr (by
    simp [skewedBox, Model.visits, Model.itemVisits, Node.visits, Model.commandVisits, Visit.under,
      Visit.inside, Visit.Content.model?, Model.isScript, Model.feedback, Feedback.EverySpan,
      Feedback.empty, Diagnostic.warningAt, Span.Valid, Position.le_iff])

/-- The space, the script that lies too deep and what the other one says are reported with spans
that cross the first line, and so does the span that covers them all. -/
theorem skewedBox_spans_valid :
    (∀ v span n, Occurs skewedBox.model v → v.content = .node span n → span.Valid) ∧
    (skewedBox.model.EveryModel fun m => m.isScript = true → m.feedback.EverySpan Span.Valid) ∧
    skewedBox.run.Reports ⟨⟨-1, 5, 2⟩, ⟨0, 0, 6⟩⟩ ∧
    skewedBox.run.Reports ⟨⟨0, 0, 6⟩, ⟨0, 0, 6⟩⟩ ∧
    skewedBox.run.Reports ⟨⟨0, 8, 9⟩, ⟨2, 5, 14⟩⟩ ∧
    (Span.mk ⟨-1, 5, 2⟩ ⟨2, 5, 14⟩ : Span Int).Valid := by
  have handedOut : .node ⟨⟨-1, 5, 2⟩, ⟨0, 0, 6⟩⟩ .space { nested := .bool true } ∈
      skewedBox.run.events := .tail _ (.head _)
  have result : skewedBox.run.result = .ok
      { diagnostics :=
          [Diagnostic.errorAt ⟨⟨0, 0, 6⟩, ⟨0, 0, 6⟩⟩ "maximum layout depth of 1 exceeded",
            Diagnostic.warningAt ⟨⟨0, 8, 9⟩, ⟨2, 5, 14⟩⟩ "late"] } := rfl
  have space : skewedBox.run.Reports ⟨⟨-1, 5, 2⟩, ⟨0, 0, 6⟩⟩ := .node handedOut
  have deep : skewedBox.run.Reports ⟨⟨0, 0, 6⟩, ⟨0, 0, 6⟩⟩ := .diagnostic result (.head _)
  have late : skewedBox.run.Reports ⟨⟨0, 8, 9⟩, ⟨2, 5, 14⟩⟩ :=
    .diagnostic result (.tail _ (.head _))
  obtain ⟨_, grown⟩ := reported_spans_valid skewedBox skewedBox_nodes skewedBox_scripts
  refine ⟨skewedBox_nodes, skewedBox_scripts, space, deep, late, ?_⟩
  exact grown ⟨⟨-1, 5, 2⟩, ⟨0, 0, 6⟩⟩ [⟨⟨0, 0, 6⟩, ⟨0, 0, 6⟩⟩, ⟨⟨0, 8, 9⟩, ⟨2, 5, 14⟩⟩]
    (by simp [space, deep, late])

end Folio
