import Folio.Proofs.Effects
import Folio.Proofs.WholeOrder
import Mathlib.Data.List.Flatten

/-!
# Layouts report in document order

Where a document is well nested, each list of nodes is in order by itself, measured from the start
of the node around it, and what a model shows stays within its node. A layout then hands out its
nodes in document order, and so it does with the marks that it puts on names.

Positions are counted in doubles. As long as no sum of lines or columns is rounded, they are the
places of whole numbers, and the argument is one about these. A sum that is rounded can put a node
before one that it follows.

1. `Model.WellNested.showsInOrder`: the places that a layout shows, by induction on the model.
2. `run_in_document_order`: the same for a whole layout in doubles.
3. `farBox_out_of_order`: a well nested document far down, where sums are rounded.
-/

namespace Folio

/-! ## Spans in order -/

section

variable {α : Type} [Coordinate α]

/-- No span ends before it starts, and none ends behind the start of the next. -/
def InOrder (spans : List (Span α)) : Prop :=
  (∀ s ∈ spans, s.start ≤ s.stop) ∧ spans.IsChain fun s t => s.stop ≤ t.start

instance (spans : List (Span α)) : Decidable (InOrder spans) := inferInstanceAs (Decidable (_ ∧ _))

end

theorem inOrder_iff_pairwise {spans : List (Span Int)} :
    InOrder spans ↔
      (∀ s ∈ spans, s.start ≤ s.stop) ∧ spans.Pairwise fun s t => s.stop ≤ t.start := by
  refine and_congr_right fun valid => ⟨fun chain => ?_, List.Pairwise.isChain⟩
  induction spans with
  | nil => exact List.Pairwise.nil
  | cons s rest ih =>
    cases rest with
    | nil => exact List.pairwise_singleton _ s
    | cons next rest =>
      obtain ⟨near, chain⟩ := List.isChain_cons_cons.mp chain
      have later := ih (fun t member => valid t (by simp [member])) chain
      refine List.pairwise_cons.mpr ⟨fun t member => ?_, later⟩
      rcases List.mem_cons.mp member with rfl | further
      · exact near
      · calc
          s.stop ≤ next.start := near
          _ ≤ next.stop := valid next (by simp)
          _ ≤ t.start := (List.pairwise_cons.mp later).1 t further

namespace InOrder

theorem nil : InOrder ([] : List (Span Int)) := ⟨by simp, .nil⟩

theorem singleton {s : Span Int} (valid : s.start ≤ s.stop) : InOrder [s] := by
  simpa [InOrder] using valid

theorem sublist {spans fewer : List (Span Int)} (sub : fewer.Sublist spans)
    (ordered : InOrder spans) :
    InOrder fewer := by
  rw [inOrder_iff_pairwise] at ordered ⊢
  exact ⟨fun s member => ordered.1 s (sub.subset member), ordered.2.sublist sub⟩

/-- Putting spans in order within each span in the place of that span leaves all in order. -/
theorem flatMap {β : Type} {items : List β} {place : β → Span Int} {inside : β → List (Span Int)}
    (places : InOrder (items.map place)) (ordered : ∀ item ∈ items, InOrder (inside item))
    (covered : ∀ item ∈ items, ∀ s ∈ inside item, (place item).Covers s) :
    InOrder (items.flatMap inside) := by
  rw [inOrder_iff_pairwise] at places ⊢
  constructor
  · intro s member
    obtain ⟨item, held, own⟩ := List.mem_flatMap.mp member
    exact (ordered item held).1 s own
  · refine List.pairwise_flatMap.mpr ⟨fun item held => ?_, ?_⟩
    · exact (inOrder_iff_pairwise.mp (ordered item held)).2
    · refine List.Pairwise.imp_of_mem ?_ (List.pairwise_map.mp places.2)
      intro item next held heldNext apart s own t ownNext
      calc
        s.stop ≤ (place item).stop := (covered item held s own).2
        _ ≤ (place next).start := apart
        _ ≤ t.start := (covered next heldNext t ownNext).1

end InOrder

theorem InOrder.starts {spans : List (Span Int)} (ordered : InOrder spans) :
    spans.Pairwise fun s t => s.start ≤ t.start := by
  obtain ⟨valid, apart⟩ := inOrder_iff_pairwise.mp ordered
  refine List.Pairwise.imp_of_mem ?_ apart
  intro s t member _ le
  exact (valid s member).trans le

theorem inOrder_offsetBy {spans : List (Span Int)} (start : Position Int) :
    InOrder (spans.map (·.offsetBy start)) ↔ InOrder spans := by
  simp only [inOrder_iff_pairwise, List.forall_mem_map, List.pairwise_map, Span.offsetBy,
    Position.offsetBy_le_offsetBy]

/-! ## Places of doubles -/

/-- The whole part of a double. Where there is none, zero is taken. -/
def wholePart (x : Float) : Int := ((Binary.ofFloat? x).map Binary.trunc).getD 0

theorem Denotes.wholePart_eq {x : Float} {n : Int} (number : Denotes x n) : wholePart x = n := by
  obtain ⟨b, value, -, rfl⟩ := number
  unfold wholePart
  rw [value]
  rfl

namespace Position

/-- The place of a position in whole numbers. -/
def place (a : Position Float) : Position Int := ⟨wholePart a.line, wholePart a.column, 0⟩

/-- `a.IsWhole`: line and column are whole numbers. -/
def IsWhole (a : Position Float) : Prop := a.Stands a.place

/-- `a.MovesExactly start`: moving the position by `start` rounds no sum. -/
def MovesExactly (a start : Position Float) : Prop :=
  (a.offsetBy start).Stands (a.place.offsetBy start.place)

instance (a : Position Float) : Decidable a.IsWhole := inferInstanceAs (Decidable (a.Stands a.place))

instance (a start : Position Float) : Decidable (a.MovesExactly start) :=
  inferInstanceAs (Decidable ((a.offsetBy start).Stands (a.place.offsetBy start.place)))

variable {a b start : Position Float} {p : Position Int}

theorem Stands.place_eq (stands : a.Stands p) : a.place = ⟨p.line, p.column, 0⟩ := by
  unfold place
  rw [stands.1.wholePart_eq, stands.2.wholePart_eq]

theorem Stands.isWhole (stands : a.Stands p) : a.IsWhole := by
  unfold IsWhole
  rw [stands.place_eq]
  exact stands

theorem MovesExactly.place_eq (exact : a.MovesExactly start) :
    (a.offsetBy start).place = a.place.offsetBy start.place :=
  Stands.place_eq exact

theorem IsWhole.le_iff (left : a.IsWhole) (right : b.IsWhole) : a ≤ b ↔ a.place ≤ b.place :=
  Stands.le_iff left right

end Position

namespace Span

def place (s : Span Float) : Span Int := ⟨s.start.place, s.stop.place⟩

def IsWhole (s : Span Float) : Prop := s.start.IsWhole ∧ s.stop.IsWhole

def MovesExactly (s : Span Float) (start : Position Float) : Prop :=
  s.start.MovesExactly start ∧ s.stop.MovesExactly start

instance (s : Span Float) : Decidable s.IsWhole := inferInstanceAs (Decidable (_ ∧ _))

instance (s : Span Float) (start : Position Float) : Decidable (s.MovesExactly start) :=
  inferInstanceAs (Decidable (_ ∧ _))

theorem MovesExactly.place_eq {s : Span Float} {start : Position Float}
    (exact : s.MovesExactly start) : (s.offsetBy start).place = s.place.offsetBy start.place := by
  show Span.mk (s.start.offsetBy start).place (s.stop.offsetBy start).place = _
  rw [exact.1.place_eq, exact.2.place_eq]
  rfl

theorem MovesExactly.isWhole {s : Span Float} {start : Position Float}
    (exact : s.MovesExactly start) : (s.offsetBy start).IsWhole :=
  ⟨Position.Stands.isWhole exact.1, Position.Stands.isWhole exact.2⟩

end Span

/-- Spans of whole numbers are in order exactly if their places are. -/
theorem inOrder_place {spans : List (Span Float)} (whole : ∀ s ∈ spans, s.IsWhole) :
    InOrder (spans.map Span.place) ↔ InOrder spans := by
  unfold InOrder
  rw [List.forall_mem_map, List.isChain_map]
  refine and_congr (forall₂_congr fun s member => ?_) ?_
  · exact ((whole s member).1.le_iff (whole s member).2).symm
  · induction spans with
    | nil => exact iff_of_true .nil .nil
    | cons s rest ih =>
      cases rest with
      | nil => exact iff_of_true (.singleton _) (.singleton _)
      | cons next rest =>
        rw [List.forall_mem_cons] at whole
        rw [List.isChain_cons_cons, List.isChain_cons_cons, ih whole.2]
        exact and_congr_left' (whole.1.2.le_iff (whole.2 next List.mem_cons_self).1).symm

/-! ## Well nested documents -/

/-- What is to hold of all models in nodes can be looked up in the list of places. -/
theorem Model.forall_held {α : Type} {P : Visit α → Span α → Model α → Prop} {m : Model α}
    (every : ∀ v ∈ m.visits, ∀ item ∈ v.content.item?, ∀ sub ∈ v.content.model?, P v item.span sub) :
    ∀ v span sub, Occurs m v → v.content = .node span (.model sub) → P v span sub := by
  intro v span sub occurs content
  exact every v (Model.mem_visits_iff.mpr occurs) ⟨span, .model sub⟩
    (Visit.Content.item?_eq_some_iff.mpr content) sub
    (Visit.Content.model?_eq_some_iff.mpr ⟨span, content⟩)

section

variable {α : Type} [Coordinate α]

/-- The name that a call shows; macros show none. -/
def Model.shownName? : Model α → Option String
  | .call .macroCall _ _ => none
  | .call _ name _ => some name
  | _ => none

/-- The name or the nodes that a model shows, measured from its start. -/
def Model.shows : Model α → List (Span α)
  | .call .macroCall _ _ => []
  | .call _ name _ => [nameSpan name]
  | .body _ items => items.map (·.span)
  | .tree items => items.map (·.span)
  | _ => []

/-- Where a place in a model lies in the document, if the model starts at `start`. -/
def Visit.originFrom (start : Position α) (v : Visit α) : Position α :=
  v.enclosing.foldl (fun origin span => span.start.offsetBy origin) start

end

/-- Nodes stand one behind the other at whole places, and what a model shows does not reach beyond
its node. -/
structure Model.WellNested (m : Model Float) : Prop where
  whole : ∀ v span n, Occurs m v → v.content = .node span n →
    span.IsWhole ∧ span.place.start.Nonneg ∧ span.place.stop.Nonneg
  ordered : m.EveryModel fun sub => ∀ items ∈ sub.items?, InOrder (items.map (·.span))
  contained : ∀ v span sub, Occurs m v → v.content = .node span (.model sub) →
    ∀ s ∈ sub.shows, s.stop.offsetBy span.start ≤ span.stop

/-- `m.Unrounded start`: with the model at `start`, the lengths of names are counted exactly, and
no sum is rounded that tells where something lies in the document or within its node. -/
structure Model.Unrounded (start : Position Float) (m : Model Float) : Prop where
  names : m.EveryModel fun sub => ∀ name ∈ sub.shownName?,
    (nameSpan name : Span Float).Stands (nameSpan name)
  shown : ∀ s ∈ m.shows, s.MovesExactly start
  inside : ∀ v span sub, Occurs m v → v.content = .node span (.model sub) → ∀ s ∈ sub.shows,
    s.stop.MovesExactly span.start ∧ s.MovesExactly (span.start.offsetBy (v.originFrom start))

theorem Model.WellNested.held {m sub : Model Float} (nested : m.WellNested)
    {items : List (Item Float)} {span : Span Float} (walked : .walk items ∈ m.commands)
    (held : ⟨span, .model sub⟩ ∈ items) : sub.WellNested where
  whole v inner n occurs content := by
    obtain ⟨w, outside, -, same⟩ := Occurs.of_held walked held occurs
    exact nested.whole w inner n outside (same.trans content)
  ordered := nested.ordered.held walked held
  contained v inner deeper occurs content := by
    obtain ⟨w, outside, -, same⟩ := Occurs.of_held walked held occurs
    exact nested.contained w inner deeper outside (same.trans content)

theorem Model.Unrounded.held {m sub : Model Float} {start : Position Float}
    (exact : m.Unrounded start) {items : List (Item Float)} {span : Span Float}
    (walked : .walk items ∈ m.commands) (held : ⟨span, .model sub⟩ ∈ items) :
    sub.Unrounded (span.start.offsetBy start) where
  names := exact.names.held walked held
  shown s shown := by
    obtain ⟨v, occurs, outermost, content⟩ := Occurs.of_walked walked held
    have here : v.originFrom start = start := by
      unfold Visit.originFrom
      rw [outermost]
      rfl
    have moves := (exact.inside v span sub occurs content s shown).2
    rw [here] at moves
    exact moves
  inside v inner deeper occurs content s shown := by
    obtain ⟨w, outside, around, same⟩ := Occurs.of_held walked held occurs
    have here : w.originFrom start = v.originFrom (span.start.offsetBy start) := by
      unfold Visit.originFrom
      rw [around]
      rfl
    have moves := exact.inside w inner deeper outside (same.trans content) s shown
    rw [here] at moves
    exact moves

/-! ## What moves show -/

section

variable {α : Type} [Coordinate α]

/-- The spans that a move shows in the document: of the node it hands out, or of what a model marks.
-/
def Move.marks : Move α → List (Span α)
  | .consult frame heading => heading.feedback.decorations.map (·.span.offsetBy frame.origin)
  | .call (.node span _ _) => [span]
  | .call _ => []
  | .skip _ _ _ => []

namespace DocumentOrderLemmas

/-- What is shown of a model that is laid out in a frame. -/
def modelMarks (limit : α) (frame : Frame α) (m : Model α) : List (Span α) :=
  (m.plan.moves limit frame).flatMap Move.marks

/-- What is shown of one node of a tree that is walked in a frame. -/
def itemMarks (limit : α) (frame : Frame α) (item : Item α) : List (Span α) :=
  (Step.movesAll limit frame (Model.itemSteps [item])).flatMap Move.marks

theorem itemMarks_leaf (limit : α) (frame : Frame α) (span : Span α) (content : Leaf) :
    itemMarks limit frame ⟨span, .leaf content⟩ = [span.offsetBy frame.origin] := rfl

theorem itemMarks_model (limit : α) (frame : Frame α) (span : Span α) (m : Model α) :
    itemMarks limit frame ⟨span, .model m⟩ =
      if limit ≤ frame.depth then [] else modelMarks limit (frame.inner span) m := by
  rw [itemMarks, Model.itemSteps, Model.itemSteps, Step.movesAll, Step.movesAll, List.append_nil,
    Step.moves]
  split
  · rfl
  · rfl

theorem marks_itemSteps (limit : α) (frame : Frame α) (items : List (Item α)) :
    (Step.movesAll limit frame (Model.itemSteps items)).flatMap Move.marks =
      items.flatMap (itemMarks limit frame) := by
  induction items with
  | nil => rfl
  | cons item rest ih =>
    have first : Model.itemSteps (item :: rest) =
        Model.itemSteps [item] ++ Model.itemSteps rest := by
      obtain ⟨span, node⟩ := item
      cases node <;> rfl
    rw [first, MovesLemmas.movesAll_append, List.flatMap_append, ih, List.flatMap_cons, itemMarks]

theorem modelMarks_body (limit : α) (frame : Frame α) (name : String)
    (items : List (Item α)) :
    modelMarks limit frame (.body name items) = items.flatMap (itemMarks limit frame) := by
  rw [← marks_itemSteps, modelMarks, Plan.moves, Model.plan, Model.steps, Step.movesAll,
    MovesLemmas.movesAll_append]
  simp [Step.moves, Step.movesAll, Move.marks, Model.heading, Model.feedback, Feedback.empty]

theorem modelMarks_tree (limit : α) (frame : Frame α) (items : List (Item α)) :
    modelMarks limit frame (.tree items) = items.flatMap (itemMarks limit frame) := by
  rw [← marks_itemSteps]
  rfl

/-- A call shows its name, unless it is a macro. -/
theorem modelMarks_call (limit : α) (frame : Frame α) (kind : CallKind) (name : String)
    (args : List String) :
    modelMarks limit frame (.call kind name args) =
      (Model.call kind name args).shows.map (·.offsetBy frame.origin) := by
  have marked : (callFeedback name : Feedback α).decorations.map
      (·.span.offsetBy frame.origin) = [(nameSpan name).offsetBy frame.origin] := by
    unfold callFeedback
    split <;> rfl
  cases kind with
  | macroCall => rfl
  | function => exact (List.append_nil _).trans marked
  | method => exact (List.append_nil _).trans marked

end DocumentOrderLemmas

end

namespace DocumentOrderLemmas

/-! ### Marks stay within the node -/

/-- A span that a model shows lies within the node of the model. -/
theorem covers_inner {span t : Span Int} (start : t.start.Nonneg) (stop : t.stop.Nonneg)
    (node : span.start.Nonneg) (contained : t.stop.offsetBy span.start ≤ span.stop)
    (origin : Position Int) :
    (span.offsetBy origin).Covers (t.offsetBy (span.start.offsetBy origin)) := by
  refine ⟨Position.le_offsetBy start _, ?_⟩
  calc
    t.stop.offsetBy (span.start.offsetBy origin)
      = (t.stop.offsetBy span.start).offsetBy origin :=
        (Position.offsetBy_offsetBy stop.1 node.1 origin).symm
    _ ≤ span.stop.offsetBy origin := (Position.offsetBy_le_offsetBy origin).mpr contained

/-- `Placed s`: the span is one of whole numbers that are not negative. -/
def Placed (s : Span Float) : Prop :=
  s.IsWhole ∧ s.place.start.Nonneg ∧ s.place.stop.Nonneg ∧ s.place.start ≤ s.place.stop

theorem placed_nameSpan {name : String}
    (counted : (nameSpan name : Span Float).Stands (nameSpan name)) : Placed (nameSpan name) := by
  obtain ⟨start, stop⟩ := counted
  have places : (nameSpan name : Span Float).place =
      ⟨⟨0, 1, 0⟩, ⟨0, 1 + (Text.units name : Int), 0⟩⟩ := by
    show Span.mk (nameSpan name : Span Float).start.place (nameSpan name : Span Float).stop.place = _
    rw [start.place_eq, stop.place_eq]
    rfl
  refine ⟨⟨start.isWhole, stop.isWhole⟩, ?_⟩
  have one : (0 : Int) ≤ 1 := by decide
  have length : (1 : Int) ≤ 1 + Text.units name := by omega
  rw [places]
  exact ⟨⟨le_refl _, one⟩, ⟨le_refl _, le_trans one length⟩,
    Position.le_iff.mpr (.inr ⟨rfl, length⟩)⟩

/-- What is shown of a model in a frame is at whole places and in order, and lies within its name
or its nodes. -/
structure ShowsInOrder (limit : Float) (frame : Frame Float) (m : Model Float) : Prop where
  whole : ∀ s ∈ modelMarks limit frame m, s.IsWhole
  ordered : InOrder ((modelMarks limit frame m).map Span.place)
  covered : ∀ s ∈ modelMarks limit frame m,
    ∃ t ∈ m.shows, (t.place.offsetBy frame.origin.place).Covers s.place

theorem showsInOrder_of_no_marks {limit : Float} {frame : Frame Float} {m : Model Float}
    (nothing : modelMarks limit frame m = []) : ShowsInOrder limit frame m where
  whole := by simp [nothing]
  ordered := by
    rw [nothing]
    exact .nil
  covered := by simp [nothing]

/-- One span is shown at its place. -/
theorem placed_offsetBy {s : Span Float} {start : Position Float} (placed : Placed s)
    (exact : s.MovesExactly start) : InOrder [(s.offsetBy start).place] := by
  rw [exact.place_eq]
  exact .singleton ((Position.offsetBy_le_offsetBy _).mpr placed.2.2.2)

/-- What a model shows of itself is placed. -/
theorem placed_of_shows {m : Model Float} (plain : m.Unscripted) (nested : m.WellNested)
    {start : Position Float} (exact : m.Unrounded start) : ∀ s ∈ m.shows, Placed s := by
  have nodes : ∀ items, m.items? = some items → ∀ s ∈ items.map (·.span), Placed s := by
    intro items holds s member
    obtain ⟨item, held, rfl⟩ := List.mem_map.mp member
    obtain ⟨v, occurs, -, content⟩ :=
      Occurs.of_walked ((Model.walk_mem_commands plain.1).mpr holds) held
    obtain ⟨whole, start, stop⟩ := nested.whole v item.span item.value occurs content
    have valid := (nested.ordered.1 items holds).1 item.span (List.mem_map_of_mem held)
    exact ⟨whole, start, stop, (whole.1.le_iff whole.2).mp valid⟩
  cases m with
  | call kind name args =>
    cases kind with
    | macroCall => exact fun s shown => by cases shown
    | function =>
      intro s shown
      rw [List.mem_singleton.mp shown]
      exact placed_nameSpan (exact.names.1 name rfl)
    | method =>
      intro s shown
      rw [List.mem_singleton.mp shown]
      exact placed_nameSpan (exact.names.1 name rfl)
  | body name items => exact nodes items rfl
  | tree items => exact nodes items rfl
  | aliasing => exact fun s shown => by cases shown
  | shapeShifting => exact fun s shown => by cases shown
  | script head commands => exact fun s shown => by cases shown

theorem showsInOrder_call {limit : Float} {frame : Frame Float} {kind : CallKind} {name : String}
    {args : List String} (placed : ∀ s ∈ (Model.call kind name args).shows, Placed s)
    (exact : ∀ s ∈ (Model.call kind name args).shows, s.MovesExactly frame.origin) :
    ShowsInOrder limit frame (.call kind name args) where
  whole s shown := by
    rw [modelMarks_call] at shown
    obtain ⟨t, member, rfl⟩ := List.mem_map.mp shown
    exact (exact t member).isWhole
  ordered := by
    rw [modelMarks_call]
    cases kind with
    | macroCall => exact .nil
    | function =>
      exact placed_offsetBy (placed _ (List.mem_singleton_self _)) (exact _ (List.mem_singleton_self _))
    | method =>
      exact placed_offsetBy (placed _ (List.mem_singleton_self _)) (exact _ (List.mem_singleton_self _))
  covered s shown := by
    rw [modelMarks_call] at shown
    obtain ⟨t, member, rfl⟩ := List.mem_map.mp shown
    refine ⟨t, member, ?_⟩
    rw [(exact t member).place_eq]
    exact .refl _

/-- A node shows what lies within it, in order. -/
theorem itemMarks_inOrder {limit : Float} {frame : Frame Float} {item : Item Float}
    (placed : Placed item.span) (exact : item.span.MovesExactly frame.origin)
    (inner : ∀ sub, item.value = .model sub → ShowsInOrder limit (frame.inner item.span) sub ∧
      ∀ t ∈ sub.shows, Placed t ∧
        t.place.stop.offsetBy item.span.place.start ≤ item.span.place.stop) :
    InOrder ((itemMarks limit frame item).map Span.place) ∧
      ∀ s ∈ itemMarks limit frame item, s.IsWhole ∧
        (item.span.place.offsetBy frame.origin.place).Covers s.place := by
  obtain ⟨span, value⟩ := item
  cases value with
  | leaf content =>
    rw [itemMarks_leaf]
    refine ⟨placed_offsetBy placed exact, fun s shown => ?_⟩
    rw [List.mem_singleton.mp shown, exact.place_eq]
    exact ⟨exact.isWhole, .refl _⟩
  | model m =>
    obtain ⟨shows, contained⟩ := inner m rfl
    rw [itemMarks_model]
    split
    · exact ⟨.nil, fun s shown => by cases shown⟩
    · refine ⟨shows.ordered, fun s shown => ⟨shows.whole s shown, ?_⟩⟩
      obtain ⟨t, member, covers⟩ := shows.covered s shown
      obtain ⟨⟨_, start, stop, _⟩, ends⟩ := contained t member
      have origin : (frame.inner span).origin.place =
          span.place.start.offsetBy frame.origin.place := exact.1.place_eq
      rw [origin] at covers
      exact (covers_inner start stop placed.2.1 ends frame.origin.place).trans covers

/-- A model that shows nothing but the nodes it holds shows them in order. -/
theorem showsInOrder_items {limit : Float} {frame : Frame Float} {m : Model Float}
    (plain : m.Unscripted) (nested : m.WellNested) (exact : m.Unrounded frame.origin)
    {items : List (Item Float)} (holds : m.items? = some items)
    (marks : modelMarks limit frame m = items.flatMap (itemMarks limit frame))
    (shows : m.shows = items.map (·.span))
    (inner : ∀ span sub, ⟨span, .model sub⟩ ∈ items → ∃ _ : sub.Unscripted,
      sub.WellNested → sub.Unrounded (frame.inner span).origin →
        ShowsInOrder limit (frame.inner span) sub) :
    ShowsInOrder limit frame m := by
  have walked := (Model.walk_mem_commands plain.1).mpr holds
  have placed := placed_of_shows plain nested exact
  have shown : ∀ item ∈ items, item.span ∈ m.shows := fun item member =>
    shows ▸ List.mem_map_of_mem member
  have each : ∀ item ∈ items, InOrder ((itemMarks limit frame item).map Span.place) ∧
      ∀ s ∈ itemMarks limit frame item, s.IsWhole ∧
        (item.span.place.offsetBy frame.origin.place).Covers s.place := by
    intro item member
    refine itemMarks_inOrder (placed _ (shown item member)) (exact.shown _ (shown item member))
      fun sub holdsSub => ?_
    obtain ⟨span, value⟩ := item
    obtain rfl : value = .model sub := holdsSub
    obtain ⟨subPlain, subShows⟩ := inner span sub member
    have subNested := nested.held walked member
    have subExact := exact.held walked member
    refine ⟨subShows subNested subExact, fun t showing => ?_⟩
    obtain ⟨v, occurs, -, content⟩ := Occurs.of_walked walked member
    have contained := nested.contained v span sub occurs content t showing
    have moves := (exact.inside v span sub occurs content t showing).1
    have stop : span.stop.IsWhole := (placed _ (shown _ member)).1.2
    rw [(Position.Stands.isWhole moves).le_iff stop, moves.place_eq] at contained
    exact ⟨placed_of_shows subPlain subNested subExact t showing, contained⟩
  constructor
  · intro s member
    rw [marks] at member
    obtain ⟨item, held, own⟩ := List.mem_flatMap.mp member
    exact ((each item held).2 s own).1
  · have whole : ∀ s ∈ items.map (·.span), s.IsWhole := fun s member => (placed s (shows ▸ member)).1
    have places := (inOrder_offsetBy frame.origin.place).mpr
      ((inOrder_place whole).mpr (nested.ordered.1 items holds))
    rw [List.map_map, List.map_map] at places
    rw [marks, List.map_flatMap]
    refine places.flatMap (fun item member => (each item member).1) fun item member s own => ?_
    obtain ⟨t, shown, rfl⟩ := List.mem_map.mp own
    exact ((each item member).2 t shown).2
  · intro s member
    rw [marks] at member
    obtain ⟨item, held, own⟩ := List.mem_flatMap.mp member
    exact ⟨item.span, shown item held, ((each item held).2 s own).2⟩

end DocumentOrderLemmas

open DocumentOrderLemmas

/-- A well nested model without scripts shows everything in document order, as long as no sum is
rounded. -/
theorem Model.WellNested.showsInOrder {limit : Float} {frame : Frame Float} {m : Model Float}
    (plain : m.Unscripted) (nested : m.WellNested) (exact : m.Unrounded frame.origin) :
    ShowsInOrder limit frame m := by
  -- The frame changes at every model node, so the induction is over all frames at once.
  induction m, plain using Model.Unscripted.induction generalizing frame with
  | call kind name args plain =>
    exact showsInOrder_call (placed_of_shows plain nested exact) exact.shown
  | body name items plain ih =>
    refine showsInOrder_items plain nested exact rfl (modelMarks_body limit frame name items) rfl ?_
    intro span sub held
    obtain ⟨inner, shows⟩ := ih span sub held
    exact ⟨inner, shows⟩
  | tree items plain ih =>
    refine showsInOrder_items plain nested exact rfl (modelMarks_tree limit frame items) rfl ?_
    intro span sub held
    obtain ⟨inner, shows⟩ := ih span sub held
    exact ⟨inner, shows⟩
  | aliasing => exact showsInOrder_of_no_marks rfl
  | shapeShifting => exact showsInOrder_of_no_marks rfl

/-! ## Whole layouts -/

/-- Decorations at whole places whose starts never fall stay as they are when they are sorted. -/
theorem Decoration.sortByStart_of_pairwise {items : List (Spanned Float Decoration)}
    (whole : ∀ d ∈ items, d.span.IsWhole)
    (rising : items.Pairwise fun d e => d.span.start ≤ e.span.start) :
    Decoration.sortByStart items = items := by
  have placed : (items.all fun d => d.span.start.isPlaced) = true :=
    List.all_eq_true.mpr fun d member => Position.Stands.isPlaced (whole d member).1
  rw [Decoration.sortByStart, if_pos placed]
  refine List.mergeSort_of_pairwise (List.Pairwise.imp_of_mem ?_ rising)
  intro d e member later le
  rw [Bool.not_eq_true', decide_eq_false_iff_not]
  have places := ((whole d member).1.le_iff (whole e later).1).mp le
  exact fun after =>
    (Position.Stands.zero_lt_compare_iff (whole d member).1 (whole e later).1).mp after places

namespace DocumentOrderLemmas

variable {α : Type} [Coordinate α]

/-- The nodes that are handed out are among what is shown, in the same order. -/
theorem nodeSpans_sublist (moves : List (Move α)) :
    ((moves.filterMap Move.event?).filterMap Event.nodeSpan?).Sublist
      (moves.flatMap Move.marks) := by
  rw [List.filterMap_filterMap, List.filterMap_eq_flatMap_toList]
  refine List.Sublist.flatMap_right _ fun move _ => ?_
  cases move with
  | consult frame heading =>
    cases said : heading.announces <;> simp [Move.event?, said, Event.nodeSpan?]
  | call event => cases event <;> exact List.Sublist.refl _
  | skip frame span heading => exact List.Sublist.refl _

/-- So are the decorations that are reported. -/
theorem decorations_sublist (r : Request α) (moves : List (Move α)) :
    ((Feedback.concat (moves.map (Move.reports r))).decorations.map (·.span)).Sublist
      (moves.flatMap Move.marks) := by
  have each : (Feedback.concat (moves.map (Move.reports r))).decorations.map (·.span) =
      moves.flatMap fun move => (move.reports r).decorations.map (·.span) := by
    rw [Feedback.concat, List.map_flatMap, List.flatMap_map]
  rw [each]
  refine List.Sublist.flatMap_right _ fun move _ => ?_
  cases move with
  | consult frame heading =>
    have same : ((Move.consult frame heading).reports r).decorations.map (·.span) =
        (Move.consult frame heading).marks := List.map_map
    rw [same]
  | call event => exact List.nil_sublist _
  | skip frame span heading => exact List.nil_sublist _

end DocumentOrderLemmas

/-- A layout of a well nested document that nobody interrupts hands out its nodes in document order,
and the decorations it reports are sorted already, as long as no sum of lines or columns is
rounded. -/
theorem run_in_document_order (r : Request Float) (plain : r.model.Unscripted)
    (nested : r.model.WellNested) (exact : r.model.Unrounded .zero)
    (unraised : r.signal.raised = none) (calm : r.Undisturbed 0 r.moves) :
    ∃ feedback, r.run.result = .ok feedback ∧
      InOrder (r.run.events.filterMap Event.nodeSpan?) ∧
      (feedback.decorations.Pairwise fun d e => d.span.start ≤ e.span.start) ∧
      Decoration.sortByStart feedback.decorations = feedback.decorations := by
  have shows : ShowsInOrder r.limit r.rootFrame r.model := nested.showsInOrder plain exact
  -- Whatever is left of the marks is at whole places and in order.
  have kept : ∀ spans : List (Span Float), spans.Sublist (r.moves.flatMap Move.marks) →
      (∀ s ∈ spans, s.IsWhole) ∧ InOrder (spans.map Span.place) := fun spans sub =>
    ⟨fun s member => shows.whole s (sub.subset member), shows.ordered.sublist (sub.map _)⟩
  obtain ⟨wholeNodes, nodes⟩ := kept _ (nodeSpans_sublist r.moves)
  obtain ⟨wholeMarks, marks⟩ := kept _ (decorations_sublist r r.moves)
  have whole : ∀ d ∈ r.gathered.decorations, d.span.IsWhole :=
    fun d member => wholeMarks d.span (List.mem_map_of_mem member)
  have rising : r.gathered.decorations.Pairwise fun d e => d.span.start ≤ e.span.start := by
    have starts := List.pairwise_map.mp (List.pairwise_map.mp marks.starts)
    refine List.Pairwise.imp_of_mem ?_ starts
    intro d e member later le
    exact ((whole d member).1.le_iff (whole e later).1).mpr le
  rw [r.run_undisturbed unraised calm]
  exact ⟨r.gathered, rfl, (inOrder_place wholeNodes).mp nodes, rising,
    Decoration.sortByStart_of_pairwise whole rising⟩

/-- A call, a box with a text on its first line and another call far below, and a space behind the
box. -/
def deepBox : Request Float where
  model := .tree
    [⟨⟨⟨2, 0, 0⟩, ⟨2, 8, 8⟩⟩, .model (.call .method "align" ["left"])⟩,
      ⟨⟨⟨2, 8, 8⟩, ⟨9007199254740994, 7, 24⟩⟩, .model (.body "box"
        [⟨⟨⟨0, 5, 5⟩, ⟨0, 9, 9⟩⟩, .leaf (.text "text")⟩,
          ⟨⟨⟨9007199254740992, 0, 10⟩, ⟨9007199254740992, 6, 16⟩⟩,
            .model (.call .function "nope" [])⟩])⟩,
      ⟨⟨⟨9007199254740994, 7, 24⟩, ⟨9007199254740994, 8, 25⟩⟩, .leaf .space⟩]
  limit := 64

theorem deepBox_unscripted : deepBox.model.Unscripted := by
  rw [Model.Unscripted, Model.everyModel_iff]
  simp [deepBox, Model.visits, Model.itemVisits, Node.visits, Visit.under, Visit.inside,
    Visit.Content.model?, Model.isScript]

theorem deepBox_wellNested : deepBox.model.WellNested where
  whole := Model.forall_node_iff.mpr (by decide +kernel)
  ordered := Model.everyModel_iff.mpr (by decide +kernel)
  contained := Model.forall_held (by decide +kernel)

theorem deepBox_unrounded : deepBox.model.Unrounded .zero where
  names := Model.everyModel_iff.mpr (by decide +kernel)
  shown := by decide +kernel
  inside := Model.forall_held (by decide +kernel)

theorem deepBox_calm : deepBox.IsCalm where
  model := Model.everyModel_iff.mpr ⟨rfl, by
    simp [deepBox, Model.visits, Model.itemVisits, Node.visits, Visit.under, Visit.inside,
      Visit.Content.model?, Model.reaction]⟩
  sink _ := rfl

/-- The text in the box comes out behind the first call and the space behind the second, although
all that is in the box is measured from its own start. -/
theorem deepBox_in_order :
    deepBox.model.Unscripted ∧ deepBox.model.WellNested ∧ deepBox.model.Unrounded .zero ∧
    deepBox.signal.raised = none ∧ deepBox.Undisturbed 0 deepBox.moves ∧
    (deepBox.run.events.filterMap Event.nodeSpan? ==
      [⟨⟨2, 13, 13⟩, ⟨2, 17, 17⟩⟩,
        ⟨⟨9007199254740994, 7, 24⟩, ⟨9007199254740994, 8, 25⟩⟩]) = true ∧
    InOrder (deepBox.run.events.filterMap Event.nodeSpan?) ∧
    ∃ feedback, deepBox.run.result = .ok feedback ∧
      (feedback.decorations.map (·.span.start) ==
        [⟨2, 1, 1⟩, ⟨9007199254740994, 1, 19⟩]) = true ∧
      Decoration.sortByStart feedback.decorations = feedback.decorations := by
  have calm := deepBox_calm.undisturbed
  obtain ⟨feedback, result, ordered, _, sorted⟩ :=
    run_in_document_order deepBox deepBox_unscripted deepBox_wellNested deepBox_unrounded rfl calm
  have gathered : deepBox.run.result = .ok deepBox.gathered := deepBox_calm.run_result rfl
  cases result.symm.trans gathered
  exact ⟨deepBox_unscripted, deepBox_wellNested, deepBox_unrounded, rfl, calm, by decide +kernel,
    ordered, _, gathered, by decide +kernel, sorted⟩

/-- A tree so far down that every second line has no double, with a text on its first line and one
in a box below it. -/
def farBox : Request Float where
  model := .tree
    [⟨⟨⟨9007199254740992, 0, 0⟩, ⟨9007199254740996, 0, 9⟩⟩, .model (.tree
      [⟨⟨⟨0, 0, 0⟩, ⟨0, 5, 5⟩⟩, .leaf (.text "first")⟩,
        ⟨⟨⟨1, 0, 6⟩, ⟨3, 0, 9⟩⟩, .model (.body "box"
          [⟨⟨⟨1, 0, 1⟩, ⟨1, 1, 2⟩⟩, .leaf (.text "x")⟩])⟩])⟩]
  limit := 64

/-- The second text is on the third line of the tree, and comes out on its first. -/
theorem farBox_out_of_order :
    farBox.model.Unscripted ∧ farBox.model.WellNested ∧ farBox.signal.raised = none ∧
    farBox.Undisturbed 0 farBox.moves ∧
    (farBox.run.events.filterMap Event.nodeSpan? ==
      [⟨⟨9007199254740992, 0, 0⟩, ⟨9007199254740992, 5, 5⟩⟩,
        ⟨⟨9007199254740992, 0, 7⟩, ⟨9007199254740992, 1, 8⟩⟩]) = true ∧
    ¬ InOrder (farBox.run.events.filterMap Event.nodeSpan?) := by
  have plain : farBox.model.Unscripted := by
    rw [Model.Unscripted, Model.everyModel_iff]
    decide +kernel
  have nested : farBox.model.WellNested := {
    whole := Model.forall_node_iff.mpr (by decide +kernel)
    ordered := Model.everyModel_iff.mpr (by decide +kernel)
    contained := Model.forall_held (by decide +kernel) }
  have calm : farBox.IsCalm := {
    model := Model.everyModel_iff.mpr ⟨rfl, by
      simp [farBox, Model.visits, Model.itemVisits, Node.visits, Visit.under, Visit.inside,
        Visit.Content.model?, Model.reaction]⟩
    sink := fun _ => rfl }
  exact ⟨plain, nested, rfl, calm.undisturbed, by decide +kernel, by decide +kernel⟩

end Folio
