import Folio.Proofs.Translation
import Folio.Session.Feedback

/-!
# Origins within origins

What is measured from a start that is measured from another one in turn can be moved in two steps or
at once. This holds of positions, spans, lists and feedback alike, and feedback that is put together
first and moved afterwards is the same as feedback moved bit by bit.

1. `Feedback.extendOffset_extendOffset`, `Feedback.extendOffset_merge`: feedback gathered from within.
2. `FeedbackSession.lastAnswer?_extend_twice`, `FeedbackSession.lastAnswer?_extend_merged`: the same
   for bundles that are changed in place.
3. `translations_compose`: all of it together.
-/

namespace Folio

namespace Spanned

variable {β : Type}

theorem offsetAll_zero (items : List (Spanned Int β)) : offsetAll items Position.zero = items := by
  unfold offsetAll
  refine List.map_id'' (fun item => ?_) items
  unfold offsetBy Span.offsetBy
  rw [Position.offsetBy_zero, Position.offsetBy_zero]

end Spanned

namespace Feedback

theorem offsetBy_zero (f : Feedback Int) : f.offsetBy Position.zero = f := by
  unfold offsetBy
  rw [Spanned.offsetAll_zero, Spanned.offsetAll_zero]

theorem extendOffset_zero (t f : Feedback Int) : t.extendOffset f Position.zero = t.merge f := by
  unfold extendOffset
  rw [offsetBy_zero]

/-- Reports measured from one start can be put together before they are moved. -/
theorem extendOffset_merge {α : Type} [Coordinate α] (t f g : Feedback α) (start : Position α) :
    t.extendOffset (f.merge g) start = (t.extendOffset f start).extendOffset g start := by
  unfold extendOffset
  rw [offsetBy_merge, merge_assoc]

/-- Reports from within a part: they are gathered with those of the part and moved with them, or
moved to their place at once. -/
theorem extendOffset_extendOffset {f : Feedback Int} (above : f.EverySpan Span.LinesNonneg)
    {q : Position Int} (above' : 0 ≤ q.line) (t u : Feedback Int) (start : Position Int) :
    t.extendOffset (u.extendOffset f q) start =
      (t.extendOffset u start).extendOffset f (q.offsetBy start) := by
  unfold extendOffset
  rw [offsetBy_merge, offsetBy_offsetBy above above', merge_assoc]

end Feedback

/-! ## In place -/

namespace FeedbackSession

variable {α : Type} {s : State α}

section

variable {name target : String} {i j : BundleId} {t f : Feedback α}

theorem bundle?_eq_some_iff :
    s.bundle? name = some (i, f) ↔
      s.registers.get? name = some (.bundle i) ∧ s.bundles[i]? = some f := by
  unfold State.bundle? State.bundleId?
  cases held : s.registers.get? name with
  | none => simp
  | some value =>
    cases value with
    | pass output id => simp
    | bundle id =>
      simp only [Option.bind_eq_bind, Option.bind_some, Option.bind_eq_some_iff, Option.some.injEq,
        Prod.mk.injEq, Value.bundle.injEq]
      constructor
      · rintro ⟨f, there, rfl, rfl⟩
        exact ⟨rfl, there⟩
      · rintro ⟨rfl, there⟩
        exact ⟨f, there, rfl, rfl⟩

/-- A bundle that is changed shows the change. -/
theorem bundle?_set_self (held : s.bundle? name = some (i, t)) (changed : Feedback α) :
    State.bundle? { s with bundles := s.bundles.set i changed } name = some (i, changed) := by
  obtain ⟨named, there⟩ := bundle?_eq_some_iff.mp held
  have inside : i < s.bundles.length := (List.getElem?_eq_some_iff.mp there).1
  exact bundle?_eq_some_iff.mpr ⟨named, List.getElem?_set_self inside⟩

theorem bundle?_set_other (held : s.bundle? name = some (j, f)) (apart : j ≠ i)
    (changed : Feedback α) :
    State.bundle? { s with bundles := s.bundles.set i changed } name = some (j, f) := by
  obtain ⟨named, there⟩ := bundle?_eq_some_iff.mp held
  exact bundle?_eq_some_iff.mpr ⟨named, (List.getElem?_set_ne (Ne.symm apart)).trans there⟩

/-- A bundle that is named anew leaves the others as they are. -/
theorem bundle?_add_other (held : s.bundle? name = some (i, t)) (fresh : target ≠ name)
    (new : Feedback α) :
    State.bundle? ⟨s.bundles ++ [new], s.registers.set target (.bundle s.bundles.length)⟩ name =
      some (i, t) := by
  obtain ⟨named, there⟩ := bundle?_eq_some_iff.mp held
  have inside : i < s.bundles.length := (List.getElem?_eq_some_iff.mp there).1
  have distinct : (target == name) = false := beq_false_of_ne fresh
  refine bundle?_eq_some_iff.mpr ⟨?_, (List.getElem?_append_left inside).trans there⟩
  exact (Registers.get?_set_other distinct _ s.registers).trans named

theorem bundle?_add_self (s : State α) (target : String) (new : Feedback α) :
    State.bundle? ⟨s.bundles ++ [new], s.registers.set target (.bundle s.bundles.length)⟩ target =
      some (s.bundles.length, new) :=
  bundle?_eq_some_iff.mpr ⟨Registers.get?_set_self target _ s.registers, List.getElem?_concat_length⟩

end

variable [Coordinate α]

/-- The answer to the last of some steps, if all of them can be made. -/
def lastAnswer? (s : State α) : List (Step α) → Option (Answer α)
  | [] => none
  | [step] => (perform s step).map (·.2)
  | step :: rest => (perform s step).bind fun done => lastAnswer? done.1 rest

section

variable {target first second both : String} {i j k : BundleId} {t f g : Feedback α}

theorem perform_extendOffset (held : s.bundle? target = some (i, t))
    (given : s.bundle? first = some (j, f)) (start : Position α) :
    perform s (.extendOffset target first start) =
      some ({ s with bundles := s.bundles.set i (t.extendOffset f start) },
        .bundle (t.extendOffset f start)) := by
  simp only [perform, State.update, given, held]
  rfl

theorem perform_merge (given : s.bundle? first = some (j, f))
    (given' : s.bundle? second = some (k, g)) :
    perform s (.merge both first second) =
      some (⟨s.bundles ++ [f.merge g], s.registers.set both (.bundle s.bundles.length)⟩,
        .bundle (f.merge g)) := by
  simp only [perform, given, given']
  unfold State.store State.view? State.add State.assign
  simp

/-- A bundle extended by two others, one after the other. The second must not be the bundle itself,
which has grown by then. -/
theorem lastAnswer?_extend_twice (held : s.bundle? target = some (i, t))
    (given : s.bundle? first = some (j, f)) (given' : s.bundle? second = some (k, g)) (apart : k ≠ i)
    (start : Position α) :
    lastAnswer? s [.extendOffset target first start, .extendOffset target second start] =
      some (.bundle (t.extendOffset (f.merge g) start)) := by
  unfold lastAnswer? lastAnswer?
  rw [perform_extendOffset held given, Option.bind_some,
    perform_extendOffset (bundle?_set_self held _) (bundle?_set_other given' apart _),
    Feedback.extendOffset_merge]
  rfl

/-- The same bundle extended once, by what the others hold together. -/
theorem lastAnswer?_extend_merged (held : s.bundle? target = some (i, t))
    (given : s.bundle? first = some (j, f)) (given' : s.bundle? second = some (k, g))
    (fresh : both ≠ target) (start : Position α) :
    lastAnswer? s [.merge both first second, .extendOffset target both start] =
      some (.bundle (t.extendOffset (f.merge g) start)) := by
  unfold lastAnswer? lastAnswer?
  rw [perform_merge given given', Option.bind_some,
    perform_extendOffset (bundle?_add_other held fresh _) (bundle?_add_self s both _)]
  rfl

end

/-- Extending by what is measured from the origin is extending. -/
theorem perform_extendOffset_zero (s : State Int) (name more : String) :
    perform s (.extendOffset name more Position.zero) = perform s (.extend name more) := by
  have same : ∀ g : Feedback Int, (fun f : Feedback Int => f.extendOffset g Position.zero) =
      fun f => f.merge g := by
    intro g
    funext f
    exact Feedback.extendOffset_zero f g
  simp only [perform, same]

end FeedbackSession

/-- Moving by `q` and then by `o` is moving once by `q` moved by `o`, for all that is measured on lines
from the first on, and moving by nothing changes nothing. Feedback can be put together before it is
moved or afterwards, as values and in place. -/
theorem translations_compose {p q : Position Int} (above : 0 ≤ p.line) (above' : 0 ≤ q.line)
    (o : Position Int) :
    p.offsetBy (q.offsetBy o) = (p.offsetBy q).offsetBy o ∧
    Position.zero.offsetBy o = o ∧ o.offsetBy Position.zero = o ∧
    (∀ span : Span Int, span.LinesNonneg →
      (span.offsetBy q).offsetBy o = span.offsetBy (q.offsetBy o)) ∧
    (∀ {β : Type} (items : List (Spanned Int β)), (∀ item ∈ items, item.span.LinesNonneg) →
      Spanned.offsetAll (Spanned.offsetAll items q) o = Spanned.offsetAll items (q.offsetBy o)) ∧
    (∀ f : Feedback Int, f.EverySpan Span.LinesNonneg →
      (f.offsetBy q).offsetBy o = f.offsetBy (q.offsetBy o) ∧
      ∀ t u : Feedback Int, t.extendOffset (u.extendOffset f q) o =
        (t.extendOffset u o).extendOffset f (q.offsetBy o)) ∧
    (∀ t f g : Feedback Int,
      (t.extendOffset f o).extendOffset g o = t.extendOffset (f.merge g) o ∧
      t.extendOffset f Position.zero = t.merge f) ∧
    ∀ (s : FeedbackSession.State Int) (target first second both : String),
      FeedbackSession.perform s (.extendOffset target first Position.zero) =
        FeedbackSession.perform s (.extend target first) ∧
      ∀ i j k t f g, s.bundle? target = some (i, t) → s.bundle? first = some (j, f) →
        s.bundle? second = some (k, g) → k ≠ i → both ≠ target →
        FeedbackSession.lastAnswer? s
            [.extendOffset target first o, .extendOffset target second o] =
          some (.bundle (t.extendOffset (f.merge g) o)) ∧
        FeedbackSession.lastAnswer? s [.merge both first second, .extendOffset target both o] =
          some (.bundle (t.extendOffset (f.merge g) o)) := by
  refine ⟨(Position.offsetBy_offsetBy above above' o).symm, Position.zero_offsetBy o,
    Position.offsetBy_zero o, fun span below => Span.offsetBy_offsetBy below above' o,
    fun items below => Spanned.offsetAll_offsetAll below above' o, fun f below => ⟨?_, ?_⟩,
    fun t f g => ⟨(Feedback.extendOffset_merge t f g o).symm, Feedback.extendOffset_zero t f⟩, ?_⟩
  · exact Feedback.offsetBy_offsetBy below above' o
  · exact fun t u => Feedback.extendOffset_extendOffset below above' t u o
  · intro s target first second both
    refine ⟨FeedbackSession.perform_extendOffset_zero s target first, ?_⟩
    intro i j k t f g held given given' apart fresh
    exact ⟨FeedbackSession.lastAnswer?_extend_twice held given given' apart o,
      FeedbackSession.lastAnswer?_extend_merged held given given' fresh o⟩

/-- A warning that goes on to a second line, and a mark on that line. -/
def innerNote : Feedback Int :=
  ⟨[Diagnostic.warningAt ⟨⟨0, 3, 3⟩, ⟨1, 2, 9⟩⟩ "note"], [⟨⟨⟨1, 0, 7⟩, ⟨1, 2, 9⟩⟩, .bold⟩]⟩

/-- A bundle that is still empty beside two with the note. -/
def heldNotes : FeedbackSession.State Int :=
  ⟨[.empty, innerNote, innerNote], [("all", .bundle 0), ("one", .bundle 1), ("two", .bundle 2)]⟩

/-- The note in a part at line 2 of a part at line 1: the start of the warning moves by the column of
the inner part, which is not on the first line of the outer one, and nothing else moves sideways. -/
theorem innerNote_moves_at_once :
    innerNote.EverySpan Span.LinesNonneg ∧
    (innerNote.offsetBy ⟨2, 5, 40⟩).offsetBy ⟨1, 4, 9⟩ =
      ⟨[Diagnostic.warningAt ⟨⟨3, 8, 52⟩, ⟨4, 2, 58⟩⟩ "note"],
        [⟨⟨⟨4, 0, 56⟩, ⟨4, 2, 58⟩⟩, .bold⟩]⟩ ∧
    FeedbackSession.lastAnswer? heldNotes
        [.extendOffset "all" "one" ⟨1, 4, 9⟩, .extendOffset "all" "two" ⟨1, 4, 9⟩] =
      FeedbackSession.lastAnswer? heldNotes
        [.merge "both" "one" "two", .extendOffset "all" "both" ⟨1, 4, 9⟩] := by
  have below : innerNote.EverySpan Span.LinesNonneg := by
    unfold innerNote Feedback.EverySpan Span.LinesNonneg
    decide
  obtain ⟨_, _, _, _, _, feedback, _, inPlace⟩ :=
    translations_compose (p := ⟨0, 3, 3⟩) (q := ⟨2, 5, 40⟩) (by decide) (by decide) ⟨1, 4, 9⟩
  obtain ⟨twice, merged⟩ := (inPlace heldNotes "all" "one" "two" "both").2 0 1 2 .empty
    innerNote innerNote rfl rfl rfl (by decide) (by decide)
  exact ⟨below, (feedback innerNote below).1.trans rfl, twice.trans merged.symm⟩

end Folio
