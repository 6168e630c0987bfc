import Folio.Feedback

/-!
# Translating positions, spans and feedback

Laws of measuring from another start, for whole numbers. Columns move on the first line only, so
moving twice is moving once only as long as no line lies above the start it is measured from.
-/

namespace Folio

namespace Position

/-- What moving does to each part, in plain arithmetic. -/
theorem offsetBy_eq (p start : Position Int) :
    p.offsetBy start =
      ⟨start.line + p.line, if p.line = 0 then start.column + p.column else p.column,
        start.offset + p.offset⟩ := by
  have first : (p.line == (0 : Int)) = decide (p.line = 0) := rfl
  change Position.mk (start.line + p.line)
    (if (p.line == (0 : Int)) = true then start.column + p.column else p.column)
    (start.offset + p.offset) = _
  simp [first]

theorem zero_offsetBy (start : Position Int) : Position.zero.offsetBy start = start := by
  obtain ⟨line, column, offset⟩ := start
  rw [offsetBy_eq]
  change Position.mk (line + 0) (if (0 : Int) = 0 then column + 0 else 0) (offset + 0) = _
  simp

theorem offsetBy_zero (p : Position Int) : p.offsetBy Position.zero = p := by
  obtain ⟨line, column, offset⟩ := p
  rw [offsetBy_eq]
  change Position.mk (0 + line) (if line = 0 then 0 + column else column) (0 + offset) = _
  simp

/-- Moving twice is moving once, unless the two lines cancel: then only the second move takes the
position for one on the first line. -/
theorem offsetBy_offsetBy_iff {p q start : Position Int} :
    (p.offsetBy q).offsetBy start = p.offsetBy (q.offsetBy start) ↔
      (q.line + p.line = 0 → p.line = 0 ∨ start.column = 0) := by
  simp only [offsetBy_eq, mk.injEq, Int.add_assoc, true_and, and_true]
  by_cases first : p.line = 0
  · -- On the first line of `q` the column moves with `q`, on later lines it does not.
    by_cases first' : q.line = 0
    · simp [first, first', Int.add_assoc]
    · simp [first, first']
  · by_cases cancelled : q.line + p.line = 0
    · rw [if_pos cancelled, if_neg first, if_neg first]
      omega
    · simp [first, cancelled]

/-- Moving twice is moving once, by the start of the inner measure moved like everything else. -/
theorem offsetBy_offsetBy {p q : Position Int} (above : 0 ≤ p.line) (above' : 0 ≤ q.line)
    (start : Position Int) :
    (p.offsetBy q).offsetBy start = p.offsetBy (q.offsetBy start) :=
  offsetBy_offsetBy_iff.mpr fun cancelled => .inl (by omega)

theorem zero_le_line_offsetBy {p start : Position Int} (above : 0 ≤ p.line)
    (above' : 0 ≤ start.line) :
    0 ≤ (p.offsetBy start).line := by
  rw [offsetBy_eq]
  exact Int.add_nonneg above' above

end Position

/-- Neither end lies on a line above the start that the span is measured from. -/
def Span.LinesNonneg (s : Span Int) : Prop := 0 ≤ s.start.line ∧ 0 ≤ s.stop.line

theorem Span.offsetBy_offsetBy {s : Span Int} (above : s.LinesNonneg) {q : Position Int}
    (above' : 0 ≤ q.line)
    (start : Position Int) : (s.offsetBy q).offsetBy start = s.offsetBy (q.offsetBy start) := by
  rw [Span.offsetBy, Span.offsetBy, Span.offsetBy, Position.offsetBy_offsetBy above.1 above',
    Position.offsetBy_offsetBy above.2 above']

theorem Spanned.offsetAll_offsetAll {β : Type} {items : List (Spanned Int β)}
    (above : ∀ item ∈ items, item.span.LinesNonneg)
    {q : Position Int} (above' : 0 ≤ q.line) (start : Position Int) :
    Spanned.offsetAll (Spanned.offsetAll items q) start =
    Spanned.offsetAll items (q.offsetBy start) := by
  rw [Spanned.offsetAll, Spanned.offsetAll, Spanned.offsetAll, List.map_map]
  refine List.map_congr_left fun item member => ?_
  exact congrArg (Spanned.mk · item.value) (Span.offsetBy_offsetBy (above item member) above' start)

namespace Feedback

variable {α : Type}

/-- `f.EverySpan P`: `P` holds of the span of every report. -/
def EverySpan (P : Span α → Prop) (f : Feedback α) : Prop :=
  (∀ d ∈ f.diagnostics, P d.span) ∧ ∀ d ∈ f.decorations, P d.span

theorem offsetBy_offsetBy {f : Feedback Int} (above : f.EverySpan Span.LinesNonneg)
    {q : Position Int} (above' : 0 ≤ q.line) (start : Position Int) :
    (f.offsetBy q).offsetBy start = f.offsetBy (q.offsetBy start) := by
  rw [offsetBy, offsetBy, offsetBy, Spanned.offsetAll_offsetAll above.1 above',
    Spanned.offsetAll_offsetAll above.2 above']

theorem offsetBy_merge [Coordinate α] (f g : Feedback α) (start : Position α) :
    (f.merge g).offsetBy start = (f.offsetBy start).merge (g.offsetBy start) := by
  simp [merge, offsetBy, Spanned.offsetAll]

theorem merge_assoc (f g h : Feedback α) : (f.merge g).merge h = f.merge (g.merge h) := by
  simp [merge]

end Feedback

end Folio
