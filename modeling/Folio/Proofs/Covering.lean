import Folio.Proofs.PositionOrder
import Folio.Session.Spans
import Mathlib.Data.List.Forall2
import Mathlib.Order.Defs.Unbundled

/-!
# The least span over others

Merging takes of two starts the one that comes first and of two ends the one that comes last. Where
two ends tie in line and column the left span wins, and with it the offset that it carries: how
spans are put in brackets makes no difference at all, their order only to the offsets.

1. `Position.leading_assoc`, `Position.before_leading_iff`: the choice between two ends.
2. `Span.covers_merge_iff`, `Span.covers_foldl_merge_iff`: what covers two spans merged, or a span
   that grew over a list of others.
3. `SpanSession.performAll_expand`: a register whose span is expanded step by step.
4. `spans_grow_to_least_cover`: all of it together.
-/

namespace Folio

/-! ## Ends that lead -/

namespace Position

/-- `p.SamePlace q`: the positions differ in nothing but their offsets. -/
def SamePlace (p q : Position Int) : Prop := p.line = q.line ∧ p.column = q.column

theorem samePlace_iff {p q : Position Int} : p.SamePlace q ↔ p ≤ q ∧ q ≤ p := by
  unfold SamePlace
  rw [le_iff, le_iff]
  omega

theorem SamePlace.eq_iff {p q : Position Int} (same : p.SamePlace q) :
    p = q ↔ p.offset = q.offset := by
  obtain ⟨line, column, offset⟩ := p
  obtain ⟨line', column', offset'⟩ := q
  obtain ⟨lines, columns⟩ := same
  simp_all

instance : Std.Total (α := Position Int) (· ≤ ·) := ⟨le_total⟩

instance : Std.Total (α := Position Int) (· ≥ ·) := ⟨fun p q => le_total q p⟩

/-- Of two positions the one that comes before the other, or the left one if they tie. -/
def leading (before : Position Int → Position Int → Prop) [DecidableRel before]
    (p q : Position Int) : Position Int :=
  if before p q then p else q

section

variable {before : Position Int → Position Int → Prop} [DecidableRel before]

variable (before) in
theorem leading_eq_or (p q : Position Int) :
    leading before p q = p ∨ leading before p q = q := by
  unfold leading
  split
  · exact .inl rfl
  · exact .inr rfl

theorem foldl_leading_mem (p : Position Int) (rest : List (Position Int)) :
    rest.foldl (leading before) p ∈ p :: rest := by
  induction rest generalizing p with
  | nil => exact .head _
  | cons q rest ih =>
    rcases List.mem_cons.mp (ih (leading before p q)) with own | later
    · rw [List.foldl_cons, own]
      rcases leading_eq_or before p q with left | right
      · simp [left]
      · simp [right]
    · exact .tail _ (.tail _ later)

variable [Std.Total before]

/-- The order of the two shows exactly if they tie and are not the same. -/
theorem leading_comm_iff {p q : Position Int} :
    leading before p q = leading before q p ↔ (before p q ∧ before q p → p = q) := by
  by_cases ahead : before p q
  · by_cases behind : before q p
    · have left : leading before p q = p := if_pos ahead
      have right : leading before q p = q := if_pos behind
      rw [left, right]
      exact ⟨fun same _ => same, fun same => same ⟨ahead, behind⟩⟩
    · have left : leading before p q = p := if_pos ahead
      have right : leading before q p = p := if_neg behind
      rw [left, right]
      exact iff_of_true rfl fun tie => absurd tie.2 behind
  · have behind : before q p := (Std.Total.total p q).resolve_left ahead
    have left : leading before p q = q := if_neg ahead
    have right : leading before q p = q := if_pos behind
    rw [left, right]
    exact iff_of_true rfl fun tie => absurd tie.1 ahead

variable [IsTrans (Position Int) before]

/-- What comes before the leading one comes before both. -/
theorem before_leading_iff {x p q : Position Int} :
    before x (leading before p q) ↔ before x p ∧ before x q := by
  unfold leading
  split
  next ahead => exact ⟨fun first => ⟨first, IsTrans.trans _ _ _ first ahead⟩, And.left⟩
  next behind =>
    have other : before q p := (Std.Total.total p q).resolve_left behind
    exact ⟨fun first => ⟨IsTrans.trans _ _ _ first other, first⟩, And.right⟩

/-- Of three the leftmost among the leading ones is taken, whichever two are compared first. -/
theorem leading_assoc (p q r : Position Int) :
    leading before (leading before p q) r = leading before p (leading before q r) := by
  by_cases ahead : before p q
  · have left : leading before p q = p := if_pos ahead
    rw [left]
    by_cases last : before p r
    · have all : before p (leading before q r) := before_leading_iff.mpr ⟨ahead, last⟩
      exact (if_pos last).trans (if_pos all).symm
    · -- `r` comes before `p`, so it does not come behind `q` either.
      have behind : ¬ before q r := fun next => last (IsTrans.trans _ _ _ ahead next)
      have right : leading before q r = r := if_neg behind
      rw [right]
  · have right : leading before p q = q := if_neg ahead
    have behind : ¬ before p (leading before q r) := fun all => ahead (before_leading_iff.mp all).1
    rw [right]
    exact (if_neg behind).symm

end

end Position

/-! ## Two spans -/

namespace Span

/-- `s.Covers t`: the span `t` lies within `s`. -/
def Covers (s t : Span Int) : Prop := s.start ≤ t.start ∧ t.stop ≤ s.stop

theorem Covers.refl (s : Span Int) : s.Covers s := ⟨le_refl _, le_refl _⟩

theorem Covers.trans {s t u : Span Int} (outer : s.Covers t) (inner : t.Covers u) : s.Covers u :=
  ⟨le_trans outer.1 inner.1, le_trans inner.2 outer.2⟩

/-- `s.SamePlaces t`: the spans differ in nothing but the offsets of their ends. -/
def SamePlaces (s t : Span Int) : Prop := s.start.SamePlace t.start ∧ s.stop.SamePlace t.stop

theorem samePlaces_iff {s t : Span Int} : s.SamePlaces t ↔ s.Covers t ∧ t.Covers s := by
  unfold SamePlaces Covers
  rw [Position.samePlace_iff, Position.samePlace_iff]
  constructor
  · rintro ⟨⟨start, start'⟩, stop, stop'⟩
    exact ⟨⟨start, stop'⟩, start', stop⟩
  · rintro ⟨⟨start, stop'⟩, start', stop⟩
    exact ⟨⟨start, start'⟩, stop, stop'⟩

theorem merge_start (a b : Span Int) :
    (a.merge b).start = Position.leading (· ≤ ·) a.start b.start := rfl

theorem merge_stop (a b : Span Int) :
    (a.merge b).stop = Position.leading (· ≥ ·) a.stop b.stop := by
  show (if 0 ≤ a.stop.compare b.stop then a.stop else b.stop) =
    if b.stop ≤ a.stop then a.stop else b.stop
  simp only [Position.zero_le_compare]

theorem eq_iff {s t : Span Int} : s = t ↔ s.start = t.start ∧ s.stop = t.stop := by
  cases s
  cases t
  simp

/-- A span covers two others merged exactly if it covers both. -/
theorem covers_merge_iff {s a b : Span Int} : s.Covers (a.merge b) ↔ s.Covers a ∧ s.Covers b := by
  have starts : s.start ≤ (a.merge b).start ↔ s.start ≤ a.start ∧ s.start ≤ b.start := by
    rw [merge_start]
    exact Position.before_leading_iff
  have stops : s.stop ≥ (a.merge b).stop ↔ s.stop ≥ a.stop ∧ s.stop ≥ b.stop := by
    rw [merge_stop]
    exact Position.before_leading_iff
  exact (and_congr starts stops).trans and_and_and_comm

theorem merge_covers (a b : Span Int) : (a.merge b).Covers a ∧ (a.merge b).Covers b :=
  covers_merge_iff.mp (.refl _)

theorem merge_assoc (a b c : Span Int) : (a.merge b).merge c = a.merge (b.merge c) := by
  refine eq_iff.mpr ⟨?_, ?_⟩
  · simp only [merge_start]
    exact Position.leading_assoc _ _ _
  · simp only [merge_stop]
    exact Position.leading_assoc _ _ _

/-- A span does not change by growing over one that it covers. -/
theorem Covers.merge_eq {s t : Span Int} (covers : s.Covers t) : s.merge t = s := by
  refine eq_iff.mpr ⟨?_, ?_⟩
  · rw [merge_start]
    exact if_pos covers.1
  · rw [merge_stop]
    exact if_pos covers.2

/-- The order of two spans shows exactly if their ends tie and come with different offsets. -/
theorem merge_comm_iff {a b : Span Int} :
    a.merge b = b.merge a ↔
      (a.start.SamePlace b.start → a.start.offset = b.start.offset) ∧
      (a.stop.SamePlace b.stop → a.stop.offset = b.stop.offset) := by
  have starts : (a.merge b).start = (b.merge a).start ↔
      (a.start.SamePlace b.start → a.start.offset = b.start.offset) := by
    rw [merge_start, merge_start, Position.leading_comm_iff, ← Position.samePlace_iff]
    exact forall_congr' Position.SamePlace.eq_iff
  have stops : (a.merge b).stop = (b.merge a).stop ↔
      (a.stop.SamePlace b.stop → a.stop.offset = b.stop.offset) := by
    rw [merge_stop, merge_stop, Position.leading_comm_iff, and_comm, ← Position.samePlace_iff]
    exact forall_congr' Position.SamePlace.eq_iff
  exact eq_iff.trans (and_congr starts stops)

theorem merge_samePlaces_comm (a b : Span Int) : (a.merge b).SamePlaces (b.merge a) :=
  samePlaces_iff.mpr
    ⟨covers_merge_iff.mpr (merge_covers a b).symm, covers_merge_iff.mpr (merge_covers b a).symm⟩

/-! ## A list of spans -/

/-- `cover` covers the spans, and whatever covers them covers it. -/
structure IsLeastCover (cover : Span Int) (spans : List (Span Int)) : Prop where
  covers : ∀ t ∈ spans, cover.Covers t
  least : ∀ s, (∀ t ∈ spans, Covers s t) → s.Covers cover

theorem IsLeastCover.samePlaces {s t : Span Int} {spans others : List (Span Int)}
    (least : s.IsLeastCover spans) (least' : t.IsLeastCover others)
    (same : ∀ u, u ∈ spans ↔ u ∈ others) : s.SamePlaces t := by
  refine samePlaces_iff.mpr ⟨least'.least s fun u member => ?_, least.least t fun u member => ?_⟩
  · exact least.covers u ((same u).mpr member)
  · exact least'.covers u ((same u).mp member)

theorem isLeastCover_of_iff {cover : Span Int} {spans : List (Span Int)}
    (covers : ∀ s, Covers s cover ↔ ∀ t ∈ spans, s.Covers t) : cover.IsLeastCover spans :=
  ⟨(covers cover).mp (.refl cover), fun s => (covers s).mpr⟩

/-- A span covers one that grew over others exactly if it covers them all. -/
theorem covers_foldl_merge_iff {s first : Span Int} {rest : List (Span Int)} :
    s.Covers (rest.foldl merge first) ↔ ∀ t ∈ first :: rest, s.Covers t := by
  induction rest generalizing first with
  | nil => simp
  | cons next rest ih =>
    rw [List.foldl_cons, ih]
    simp only [List.forall_mem_cons, covers_merge_iff, and_assoc]

theorem isLeastCover_foldl_merge (first : Span Int) (rest : List (Span Int)) :
    (rest.foldl merge first).IsLeastCover (first :: rest) :=
  isLeastCover_of_iff fun _ => covers_foldl_merge_iff

/-- Growing makes up no end of its own. -/
theorem foldl_merge_ends (first : Span Int) (rest : List (Span Int)) :
    (rest.foldl merge first).start ∈ (first :: rest).map start ∧
    (rest.foldl merge first).stop ∈ (first :: rest).map stop := by
  have starts : (rest.map start).foldl (Position.leading (· ≤ ·)) first.start =
      (rest.foldl merge first).start := by
    rw [List.foldl_map]
    exact List.foldl_hom start fun a b => (merge_start a b).symm
  have stops : (rest.map stop).foldl (Position.leading (· ≥ ·)) first.stop =
      (rest.foldl merge first).stop := by
    rw [List.foldl_map]
    exact List.foldl_hom stop fun a b => (merge_stop a b).symm
  rw [← starts, ← stops]
  exact ⟨Position.foldl_leading_mem _ _, Position.foldl_leading_mem _ _⟩

end Span

/-! ## Registers that grow -/

namespace SpanSession

/-- The state after some steps, if each of them has an answer. -/
def performAll (s : State Int) : List (Step Int) → Option (State Int)
  | [] => some s
  | step :: rest => do
    let (next, _) ← perform s step
    performAll next rest

theorem span?_of_get? {s : State Int} {name : String} {span : Span Int}
    (held : s.get? name = some (.span span)) : span? s name = some span := by
  unfold span?
  rw [held]

theorem perform_expand {s : State Int} {name other : String} {span span' : Span Int}
    (held : span? s name = some span) (held' : span? s other = some span') :
    perform s (.expand name other) =
      some (s.set name (.span (span.merge span')), .value (.span (span.merge span'))) := by
  unfold perform
  simp only [held, held']
  rfl

theorem span?_congr {s t : State Int} {name : String} (same : s.get? name = t.get? name) :
    span? s name = span? t name := by
  unfold span?
  rw [same]

/-- What the registers that a register is yet to be expanded over stand for: a register holds its
span still, unless it is the one that grows, which covers the span that it held at first. -/
def Pending (s : State Int) (name : String) (grown : Span Int) (other : String) (span : Span Int) :
    Prop :=
  span? s other = some span ∨ other = name ∧ grown.Covers span

theorem Pending.next {s : State Int} {name other : String} {grown span span' : Span Int}
    (held : span? s name = some grown) (pending : Pending s name grown other span') :
    Pending (s.set name (.span (grown.merge span))) name (grown.merge span) other span' := by
  have covers : (grown.merge span).Covers grown := (Span.merge_covers grown span).1
  by_cases own : other = name
  · refine .inr ⟨own, ?_⟩
    rcases pending with found | ⟨_, covered⟩
    · rw [own, held] at found
      cases found
      exact covers
    · exact covers.trans covered
  · rcases pending with found | ⟨same, _⟩
    · have kept := Registers.get?_set_other (beq_false_of_ne (Ne.symm own))
        (Value.span (grown.merge span)) s
      exact .inl ((span?_congr kept).trans found)
    · exact absurd same own

/-- One step lets the register grow over what the other one stands for. -/
theorem Pending.perform_expand {s : State Int} {name other : String} {grown span : Span Int}
    (held : span? s name = some grown) (pending : Pending s name grown other span) :
    perform s (.expand name other) =
      some (s.set name (.span (grown.merge span)), .value (.span (grown.merge span))) := by
  rcases pending with found | ⟨same, covered⟩
  · exact SpanSession.perform_expand held found
  · rw [same, SpanSession.perform_expand held held, (Span.Covers.refl grown).merge_eq,
      covered.merge_eq]

/-- Expanding a register over others, one by one, lets its span grow over theirs and changes no
other register. The register may be among the others. -/
theorem performAll_expand {s : State Int} {name : String} {others : List String}
    {first : Span Int} {rest : List (Span Int)} (held : span? s name = some first)
    (pending : List.Forall₂ (Pending s name first) others rest) :
    ∃ after, performAll s (others.map (.expand name)) = some after ∧
      span? after name = some (rest.foldl Span.merge first) ∧
      ∀ other, other ≠ name → after.get? other = s.get? other := by
  induction others generalizing s first rest with
  | nil =>
    cases pending
    exact ⟨s, rfl, held, fun _ _ => rfl⟩
  | cons other others ih =>
    cases pending with
    | @cons _ span _ rest here later =>
      have heldNext := span?_of_get? (Registers.get?_set_self name (.span (first.merge span)) s)
      obtain ⟨after, done, grown, kept⟩ := ih heldNext (later.imp fun _ _ => Pending.next held)
      refine ⟨after, ?_, grown, fun other distinct => ?_⟩
      · rw [List.map_cons, performAll, here.perform_expand held]
        exact done
      · rw [kept other distinct]
        exact Registers.get?_set_other (beq_false_of_ne (Ne.symm distinct)) _ s

end SpanSession

/-! ## Main result -/

/-- Merging two spans gives the least that covers both. It does not depend on brackets, and on the
order of the two only as far as ends tie that carry different offsets. So a span that is expanded
over others becomes the least that covers them all, with ends that were there before, and but for
offsets it does not matter in which order they come. -/
theorem spans_grow_to_least_cover :
    (∀ a b : Span Int, (a.merge b).IsLeastCover [a, b]) ∧
    (∀ a : Span Int, a.merge a = a) ∧
    (∀ a b c : Span Int, (a.merge b).merge c = a.merge (b.merge c)) ∧
    (∀ a b : Span Int, (a.merge b).SamePlaces (b.merge a) ∧
      (a.merge b = b.merge a ↔
        (a.start.SamePlace b.start → a.start.offset = b.start.offset) ∧
        (a.stop.SamePlace b.stop → a.stop.offset = b.stop.offset))) ∧
    (∀ (first : Span Int) (rest : List (Span Int)),
      (rest.foldl Span.merge first).IsLeastCover (first :: rest) ∧
      (rest.foldl Span.merge first).start ∈ (first :: rest).map Span.start ∧
      (rest.foldl Span.merge first).stop ∈ (first :: rest).map Span.stop ∧
      ∀ first' rest', (first :: rest).Perm (first' :: rest') →
        (rest.foldl Span.merge first).SamePlaces (rest'.foldl Span.merge first')) ∧
    ∀ (s : SpanSession.State Int) (name : String) (others : List String) (first : Span Int)
      (rest : List (Span Int)),
      SpanSession.span? s name = some first →
      List.Forall₂ (fun other span => SpanSession.span? s other = some span) others rest →
      ∃ after, SpanSession.performAll s (others.map (.expand name)) = some after ∧
        SpanSession.span? after name = some (rest.foldl Span.merge first) ∧
        ∀ other, other ≠ name → after.get? other = s.get? other := by
  refine ⟨fun a b => ?_, fun a => (Span.Covers.refl a).merge_eq, Span.merge_assoc, fun a b => ?_,
    fun first rest => ?_, fun s name others first rest held given => ?_⟩
  · exact Span.isLeastCover_foldl_merge a [b]
  · exact ⟨Span.merge_samePlaces_comm a b, Span.merge_comm_iff⟩
  · obtain ⟨starts, stops⟩ := Span.foldl_merge_ends first rest
    refine ⟨Span.isLeastCover_foldl_merge first rest, starts, stops, fun first' rest' perm => ?_⟩
    exact (Span.isLeastCover_foldl_merge first rest).samePlaces
      (Span.isLeastCover_foldl_merge first' rest') fun _ => perm.mem_iff
  · exact SpanSession.performAll_expand held (given.imp fun _ _ => .inl)

/-- Two spans that start together and two that end together, with different offsets. -/
def tiedSpans : SpanSession.State Int :=
  [("first", .span ⟨⟨1, 2, 9⟩, ⟨1, 4, 11⟩⟩), ("second", .span ⟨⟨1, 2, 0⟩, ⟨2, 0, 0⟩⟩),
    ("third", .span ⟨⟨1, 3, 7⟩, ⟨2, 0, 5⟩⟩)]

/-- The register takes the offsets of the spans that come first, also when it is expanded over
itself. In another order the offsets are others and the places the same. -/
theorem tiedSpans_grow :
    SpanSession.span? tiedSpans "first" = some ⟨⟨1, 2, 9⟩, ⟨1, 4, 11⟩⟩ ∧
    (∃ after, SpanSession.performAll tiedSpans
        (["second", "first", "third"].map (.expand "first")) = some after ∧
      SpanSession.span? after "first" = some ⟨⟨1, 2, 9⟩, ⟨2, 0, 0⟩⟩ ∧
      ∀ other, other ≠ "first" → after.get? other = tiedSpans.get? other) ∧
    (Span.mk ⟨1, 2, 9⟩ ⟨2, 0, 0⟩ : Span Int).SamePlaces ⟨⟨1, 2, 0⟩, ⟨2, 0, 5⟩⟩ ∧
    (Span.mk ⟨1, 2, 9⟩ ⟨2, 0, 0⟩ : Span Int).IsLeastCover
      [⟨⟨1, 2, 9⟩, ⟨1, 4, 11⟩⟩, ⟨⟨1, 2, 0⟩, ⟨2, 0, 0⟩⟩, ⟨⟨1, 3, 7⟩, ⟨2, 0, 5⟩⟩] := by
  obtain ⟨_, _, _, _, grown, expanded⟩ := spans_grow_to_least_cover
  obtain ⟨least, _, _, reordered⟩ :=
    grown ⟨⟨1, 2, 9⟩, ⟨1, 4, 11⟩⟩ [⟨⟨1, 2, 0⟩, ⟨2, 0, 0⟩⟩, ⟨⟨1, 3, 7⟩, ⟨2, 0, 5⟩⟩]
  refine ⟨rfl, ?_, ?_, least⟩
  · exact expanded tiedSpans "first" ["second", "first", "third"] _ _ rfl
      (.cons rfl (.cons rfl (.cons rfl .nil)))
  · exact reordered ⟨⟨1, 3, 7⟩, ⟨2, 0, 5⟩⟩ [⟨⟨1, 2, 0⟩, ⟨2, 0, 0⟩⟩, ⟨⟨1, 2, 9⟩, ⟨1, 4, 11⟩⟩]
      (List.reverse_perm _).symm

end Folio
