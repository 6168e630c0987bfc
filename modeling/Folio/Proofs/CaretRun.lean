import Folio.Proofs.Drawings

/-!
# The carets of a span and the line above them

The carets below a line are meant for the columns of the line that the span takes up. A span that
goes on below the line is cut off at its end. One that ends on the line is not: if the source is
shorter than the span takes it to be, the carets run on beyond the line.

1. `Excerpt.underlined_iff`: the columns that carets are meant for, as one run.
2. `Excerpt.carets_underline_iff`: when the carets stand under these columns.
3. `carets_end_with_line_iff`: the same for the lines that are printed.
-/

namespace Folio

open Text

namespace Excerpt

/-! ## Columns -/

/-- `InSpan span line c`: the line has a column `c`, and it lies in the span. -/
def InSpan (span : Span Int) (line : String) (c : Nat) : Prop :=
  span.start.column ≤ c ∧ (⟨span.start.line, c, 0⟩ : Position Int) < span.stop ∧ c < Text.units line

/-- `Underlined span line c`: the column is in the span, or none is and it is the one the span
starts at. -/
def Underlined (span : Span Int) (line : String) (c : Nat) : Prop :=
  InSpan span line c ∨ (∀ other, ¬ InSpan span line other) ∧ span.start.column = c

theorem inSpan_iff {span : Span Int} (valid : span.start ≤ span.stop) (line : String) (c : Nat) :
    InSpan span line c ↔
      span.start.column ≤ c ∧ c < lastColumn span line ∧ c < Text.units line := by
  rw [Position.le_iff] at valid
  unfold InSpan lastColumn
  rw [Position.lt_iff]
  show (_ ∧ (span.start.line < span.stop.line ∨
    span.start.line = span.stop.line ∧ (c : Int) < span.stop.column) ∧ _) ↔ _
  split <;> omega

/-- The columns to be underlined are one run, from where the span starts. -/
theorem underlined_iff {span : Span Int} (valid : span.start ≤ span.stop) (line : String)
    (c : Nat) :
    Underlined span line c ↔
      span.start.column ≤ c ∧
      (span.start.column = c ∨ c < lastColumn span line ∧ c < Text.units line) := by
  unfold Underlined
  simp only [inSpan_iff valid]
  constructor
  · rintro (⟨starts, inside⟩ | ⟨_, start⟩)
    · exact ⟨starts, .inr inside⟩
    · exact ⟨Int.le_of_eq start, .inl start⟩
  · rintro ⟨starts, start | inside⟩
    · -- If a column is in the span at all, then the one it starts at is.
      by_cases some : (c : Int) < lastColumn span line ∧ c < Text.units line
      · exact .inl ⟨starts, some⟩
      · refine .inr ⟨fun other found => some ?_, start⟩
        omega
    · exact .inl ⟨starts, inside⟩

theorem marked_iff {span : Span Int} (nonneg : span.start.Nonneg) (line : String) (c : Nat) :
    (span.start.column.toNat ≤ c ∧ c < span.start.column.toNat + caretCount span line) ↔
      span.start.column ≤ c ∧ (span.start.column = c ∨ c < lastColumn span line) := by
  have startsAt := nonneg.2
  unfold caretCount
  split <;> omega

/-- The carets stand under the columns they are meant for, exactly if the span does not end on the
line and beyond it. A single caret beyond the line is one that was meant. -/
theorem carets_underline_iff {span : Span Int} (nonneg : span.start.Nonneg)
    (valid : span.start ≤ span.stop) (line : String) :
    (∀ c, (span.start.column.toNat ≤ c ∧ c < span.start.column.toNat + caretCount span line) ↔
        Underlined span line c) ↔
      (span.stop.line = span.start.line →
        span.stop.column ≤ Text.units line ∨ span.stop.column ≤ span.start.column + 1) := by
  simp only [marked_iff nonneg, underlined_iff valid]
  constructor
  · intro agree ends
    have last : lastColumn span line = span.stop.column := if_pos ends
    have startsAt := nonneg.2
    -- Were the span to end further out, the last of its columns would tell.
    have outermost := agree (span.stop.column - 1).toNat
    rw [last] at outermost
    omega
  · intro within c
    refine and_congr_right fun starts => or_congr_right' fun later => ?_
    by_cases ends : span.stop.line = span.start.line
    · have last : lastColumn span line = span.stop.column := if_pos ends
      have bound := within ends
      rw [last]
      omega
    · have last : lastColumn span line = Text.units line := if_neg ends
      rw [last]
      omega

end Excerpt

/-! ## Printed lines -/

/-- The excerpt of a span that starts on a line of the source has carets from where the span starts
up to where it ends or the line does. They stand under the columns of the span, and no further,
exactly if the span does not end on the line and beyond it. It is printed unless it is longer than
a text can be. -/
theorem carets_end_with_line_iff (d : Spanned Int Diagnostic) (source line : String) (support : Nat)
    (nonneg : d.span.start.Nonneg) (valid : d.span.start ≤ d.span.stop)
    (here : (lines source)[d.span.start.line.toNat]? = some line) :
    ∃ text gutter marker,
      gutter = padLeft 4 (toString (d.span.start.line + 1)) ++ " | " ∧
      marker = copies (units (padLeft 4 (toString (d.span.start.line + 1)))) ' ' ++ " | " ++
        copies d.span.start.column.toNat ' ' ++ copies (Excerpt.caretCount d.span line) '^' ∧
      text = unlines [Diagnostic.header d false, gutter ++ line, marker] ∧
      (units text ≤ maxUnits →
        Diagnostic.format d { support, source := some (.text source) } = .ok text) ∧
      (maxUnits < units text →
        Diagnostic.format d { support, source := some (.text source) } = .error .badRun) ∧
      lines text = lines (Diagnostic.header d false) ++ [gutter ++ line, marker] ∧
      (∀ k, (unitValues marker.toList)[k]? = some Excerpt.Drawing.caret ↔
        ∃ c, k = units gutter + c ∧ d.span.start.column ≤ c ∧
          (d.span.start.column = c ∨ c < Excerpt.lastColumn d.span line)) ∧
      ((∀ k, (unitValues marker.toList)[k]? = some Excerpt.Drawing.caret ↔
          ∃ c, k = units gutter + c ∧ Excerpt.Underlined d.span line c) ↔
        (d.span.stop.line = d.span.start.line →
          d.span.stop.column ≤ units line ∨ d.span.stop.column ≤ d.span.start.column + 1)) := by
  let drawing := Excerpt.drawingOn d.span line
  have formatted := Diagnostic.format_on_line nonneg here support
  refine ⟨_, drawing.gutter ++ Excerpt.Drawing.divider, drawing.markerRow, rfl, rfl, rfl,
    fun short => formatted.trans (Diagnostic.printed_of_short short),
    fun long => formatted.trans (Diagnostic.printed_of_long long),
    Diagnostic.lines_excerpt _ d.span (List.mem_of_getElem? here), ?_, ?_⟩
  · intro k
    rw [drawing.caret_iff_column]
    exact exists_congr fun c => and_congr_right fun _ => Excerpt.marked_iff nonneg line c
  · rw [← Excerpt.carets_underline_iff nonneg valid]
    simp only [drawing.caret_iff_column]
    constructor
    · intro same c
      have shifted := same (units (drawing.gutter ++ Excerpt.Drawing.divider) + c)
      simp only [Nat.add_left_cancel_iff, exists_eq_left'] at shifted
      exact shifted
    · exact fun same k => exists_congr fun c => and_congr_right fun _ => same c

/-- A mark from the second column of one line into the next, where the first line has a character of
two units. -/
def wideMark : Spanned Int Diagnostic :=
  Diagnostic.warningAt ⟨⟨0, 1, 1⟩, ⟨1, 1, 6⟩⟩ "two\nlines"

/-- The carets stand under all columns from the second to the last one of the line. -/
theorem wideMark_underlined :
    wideMark.span.start.Nonneg ∧ wideMark.span.start ≤ wideMark.span.stop ∧
    (lines "a𝄞bc\nd")[wideMark.span.start.line.toNat]? = some "a𝄞bc" ∧
    Diagnostic.format wideMark { source := some (.text "a𝄞bc\nd") } =
      .ok ("warning: two\nlines (at 1:2-2:2)\n" ++ "   1 | a𝄞bc\n" ++ "     |  ^^^^") ∧
    ∀ k, (unitValues "     |  ^^^^".toList)[k]? = some Excerpt.Drawing.caret ↔
      ∃ c, k = units "   1 | " + c ∧ 1 ≤ c ∧ c < units "a𝄞bc" := by
  have nonneg : wideMark.span.start.Nonneg := by decide
  have valid : wideMark.span.start ≤ wideMark.span.stop := by decide
  have here : (lines "a𝄞bc\nd")[wideMark.span.start.line.toNat]? = some "a𝄞bc" := by decide
  obtain ⟨text, gutter, marker, numbered, marked, shown, printed, _, _, _, within⟩ :=
    carets_end_with_line_iff wideMark "a𝄞bc\nd" "a𝄞bc" 0 nonneg valid here
  replace numbered : gutter = "   1 | " := numbered.trans (by decide +kernel)
  replace marked : marker = "     |  ^^^^" := marked.trans (by decide +kernel)
  subst numbered marked
  replace shown : text = "warning: two\nlines (at 1:2-2:2)\n" ++ "   1 | a𝄞bc\n" ++ "     |  ^^^^" :=
    shown.trans (by decide +kernel)
  subst shown
  refine ⟨nonneg, valid, here, printed (by decide +kernel), fun k => ?_⟩
  rw [within.mpr (by decide) k]
  refine exists_congr fun c => and_congr_right fun _ => ?_
  have last : Excerpt.lastColumn wideMark.span "a𝄞bc" = 5 := by decide
  have length : units "a𝄞bc" = 5 := by decide
  rw [Excerpt.underlined_iff valid, last, length]
  show ((1 : Int) ≤ c ∧ ((1 : Int) = c ∨ (c : Int) < 5 ∧ c < 5)) ↔ _
  omega

/-- A mark on a source that has become shorter since. -/
def staleMark : Spanned Int Diagnostic := Diagnostic.errorAt ⟨⟨0, 1, 1⟩, ⟨0, 9, 9⟩⟩ "stale"

/-- The line has three columns, and carets stand below eight. -/
theorem staleMark_runs_on :
    staleMark.span.start.Nonneg ∧ staleMark.span.stop.Nonneg ∧
    staleMark.span.start ≤ staleMark.span.stop ∧ staleMark.span.start.column ≤ units "abc" ∧
    (lines "abc")[staleMark.span.start.line.toNat]? = some "abc" ∧
    Diagnostic.format staleMark { source := some (.text "abc") } =
      .ok ("error: stale (at 1:2-1:10)\n" ++ "   1 | abc\n" ++ "     |  ^^^^^^^^") ∧
    (unitValues "     |  ^^^^^^^^".toList)[units "   1 | " + 8]? = some Excerpt.Drawing.caret ∧
    ¬ Excerpt.Underlined staleMark.span "abc" 8 := by
  have valid : staleMark.span.start ≤ staleMark.span.stop := by decide
  refine ⟨by decide, by decide, valid, by decide, by decide, by decide +kernel, by decide, ?_⟩
  rw [Excerpt.underlined_iff valid]
  decide

end Folio
