import Folio.Proofs.Drawings
import Mathlib.Data.List.Forall2

/-!
# Feedback in blocks

Printed feedback is one text. As long as no message goes over several lines, it falls apart into
blocks again, one for each diagnostic: a header, and two more lines if the source has the line that
the span starts on. In a block the carets stand below the text they mark, however many digits the
number of the line has. Blanks stand in front of the carets, and a column can be so large that there
is no text with all of them.

1. `Diagnostic.isBlock_rows`: what one diagnostic takes up.
2. `feedback_falls_into_blocks`: the lines of all diagnostics.
3. `farReport_refused`: one that is not printed.
-/

namespace Folio

open Text

namespace Diagnostic

/-- `FirstCaret marker k`: there is a caret at `k` and none before it. -/
def FirstCaret (marker : String) (k : Nat) : Prop :=
  (unitValues marker.toList)[k]? = some Excerpt.Drawing.caret ∧
  ∀ j < k, (unitValues marker.toList)[j]? ≠ some Excerpt.Drawing.caret

/-- The header in full. -/
def headline (d : Spanned Int Diagnostic) : String :=
  d.value.level.name ++ ": " ++ d.value.message ++ " " ++ ("(at " ++ d.span.format ++ ")")

/-- `IsBlock source d rows`: the lines are those that a diagnostic takes up above the source. -/
inductive IsBlock (source : String) (d : Spanned Int Diagnostic) : List String → Prop
  /-- The source has no line on which the span could start. -/
  | header (outside : ((lines source).length : Int) ≤ d.span.start.line) :
      IsBlock source d [headline d]
  /-- The line stands behind its number, with the carets below it. -/
  | excerpt {line number blanks indent carets : String}
      (here : (lines source)[d.span.start.line.toNat]? = some line)
      (numbered : number = padLeft 4 (toString (d.span.start.line + 1)))
      (blank : blanks = copies (units number) ' ')
      (indented : indent = copies d.span.start.column.toNat ' ')
      (marked : carets = copies (Excerpt.caretCount d.span line) '^')
      (aligned : units blanks = units number)
      (first : FirstCaret (blanks ++ " | " ++ indent ++ carets)
        (units (number ++ " | ") + d.span.start.column.toNat)) :
      IsBlock source d
        [headline d, number ++ " | " ++ line, blanks ++ " | " ++ indent ++ carets]

/-- The first caret stands as far behind the margin as the drawing is indented. -/
theorem firstCaret_markerRow (drawing : Excerpt.Drawing) (some : 0 < drawing.carets) :
    FirstCaret drawing.markerRow
      (units (drawing.gutter ++ Excerpt.Drawing.divider) + drawing.indent) := by
  constructor
  · rw [drawing.caret_iff]
    omega
  · intro j before found
    rw [drawing.caret_iff] at found
    exact absurd before (Nat.not_lt.mpr found.1)

theorem isBlock_rows {d : Spanned Int Diagnostic} (nonneg : d.span.start.Nonneg) (source : String) :
    IsBlock source d ((shownEntry d (some source) false).rows false) := by
  cases here : (lines source)[d.span.start.line.toNat]? with
  | none =>
    have undrawn : (shownEntry d (some source) false).drawing = none := congrArg (Option.map _) here
    have outside : ((lines source).length : Int) ≤ d.span.start.line := by
      have behind := List.getElem?_eq_none_iff.mp here
      have startsAt := nonneg.1
      omega
    rw [Entry.rows, undrawn]
    exact .header outside
  | some line =>
    have drawn : (shownEntry d (some source) false).drawing = some (Excerpt.drawingOn d.span line) :=
      congrArg (Option.map _) here
    rw [Entry.rows, drawn]
    exact .excerpt here rfl rfl rfl rfl (units_copies _ (by decide))
      (firstCaret_markerRow _ (Excerpt.caretCount_pos d.span line))

/-- No line of a block holds a line end, if the level and the message have none. -/
theorem oneLine_of_isBlock {source : String} {d : Spanned Int Diagnostic} {rows : List String}
    (level : OneLine d.value.level.name) (message : OneLine d.value.message)
    (block : IsBlock source d rows) : ∀ row ∈ rows, OneLine row := by
  have header : OneLine (headline d) := oneLine_header level message
  cases block with
  | header outside => simpa using header
  | @excerpt line number blanks indent carets here numbered blank indented marked =>
    subst numbered blank indented marked
    intro row member
    simp only [List.mem_cons, List.not_mem_nil, or_false] at member
    rcases member with rfl | rfl | rfl
    · exact header
    · exact ((oneLine_padLeft 4 (oneLine_text _)).append (by decide)).append
        (oneLine_of_mem_lines (List.mem_of_getElem? here))
    · exact (((oneLine_copies _ (by decide)).append (by decide)).append
        (oneLine_copies _ (by decide))).append (oneLine_copies _ (by decide))

end Diagnostic

/-- Feedback whose messages are of one line each falls into one block for each diagnostic, in order
and with nothing between or behind them. It is printed unless it is longer than a text can be. -/
theorem feedback_falls_into_blocks (f : Feedback Int) (source : String) (support : Nat)
    (reported : f.diagnostics ≠ []) (nonneg : ∀ d ∈ f.diagnostics, d.span.start.Nonneg)
    (levels : ∀ d ∈ f.diagnostics, OneLine d.value.level.name)
    (messages : ∀ d ∈ f.diagnostics, OneLine d.value.message) :
    ∃ text blocks,
      lines text = blocks.flatten ∧
      List.Forall₂ (Diagnostic.IsBlock source) f.diagnostics blocks ∧
      (units text ≤ maxUnits → f.format { support, source := some (.text source) } = .ok text) ∧
      (maxUnits < units text →
        f.format { support, source := some (.text source) } = .error .badRun) := by
  let rows := fun d => (Diagnostic.shownEntry d (some source) false).rows false
  have block : ∀ d ∈ f.diagnostics, Diagnostic.IsBlock source d (rows d) := fun d member =>
    Diagnostic.isBlock_rows (nonneg d member) source
  have formatted : f.format { support, source := some (.text source) } =
      Diagnostic.printed (f.shownText (some source) false) :=
    Feedback.format_eq nonneg rfl
  refine ⟨f.shownText (some source) false, f.diagnostics.map rows, ?_, ?_,
    fun short => formatted.trans (Diagnostic.printed_of_short short),
    fun long => formatted.trans (Diagnostic.printed_of_long long)⟩
  · rw [← List.flatMap_def]
    refine lines_unlines ?_ fun row member => ?_
    · obtain ⟨d, held⟩ := List.exists_mem_of_ne_nil _ reported
      exact List.ne_nil_of_mem (List.mem_flatMap.mpr ⟨d, held, List.mem_cons_self⟩)
    · obtain ⟨d, held, own⟩ := List.mem_flatMap.mp member
      exact Diagnostic.oneLine_of_isBlock (levels d held) (messages d held) (block d held) row own
  · exact List.forall₂_map_right_iff.mpr (List.forall₂_same.mpr block)

/-- A report on a line of the source, one behind its last line, and one that ends before it
starts. -/
def threeReports : Feedback Int where
  diagnostics :=
    [Diagnostic.errorAt ⟨⟨1, 2, 7⟩, ⟨1, 3, 8⟩⟩ "odd 𝄞",
      Diagnostic.warningAt ⟨⟨2, 0, 9⟩, ⟨2, 0, 9⟩⟩ "",
      Diagnostic.warningAt ⟨⟨0, 4, 4⟩, ⟨0, 1, 1⟩⟩ "reversed"]

/-- Three lines, one and three. -/
def threeReportsText : String :=
  "error: odd 𝄞 (at 2:3-2:4)\n" ++
  "   2 | ef𝄞\n" ++
  "     |   ^\n" ++
  "warning:  (at 3:1-3:1)\n" ++
  "warning: reversed (at 1:5-1:2)\n" ++
  "   1 | abcd\n" ++
  "     |     ^"

/-- The three reports are printed, and each takes up its block. -/
theorem threeReports_fall_into_blocks :
    (∀ d ∈ threeReports.diagnostics, d.span.start.Nonneg) ∧
    (∀ d ∈ threeReports.diagnostics, OneLine d.value.message) ∧
    threeReports.format { source := some (.text "abcd\nef𝄞") } = .ok threeReportsText ∧
    ∃ blocks, lines threeReportsText = blocks.flatten ∧
      List.Forall₂ (Diagnostic.IsBlock "abcd\nef𝄞") threeReports.diagnostics blocks := by
  have nonneg : ∀ d ∈ threeReports.diagnostics, d.span.start.Nonneg := by decide
  have levels : ∀ d ∈ threeReports.diagnostics, OneLine d.value.level.name := by decide
  have messages : ∀ d ∈ threeReports.diagnostics, OneLine d.value.message := by decide
  have formatted : threeReports.format { source := some (.text "abcd\nef𝄞") } =
      .ok threeReportsText := by
    decide +kernel
  obtain ⟨text, blocks, apart, fall, printed, refused⟩ :=
    feedback_falls_into_blocks threeReports "abcd\nef𝄞" 0 (List.cons_ne_nil _ _) nonneg levels
      messages
  rcases Nat.lt_or_ge maxUnits (units text) with long | short
  · cases formatted.symm.trans (refused long)
  · cases formatted.symm.trans (printed short)
    exact ⟨nonneg, messages, formatted, blocks, apart, fall⟩

/-- A report so far to the right that the blanks in front of its caret fill a text. -/
def farReport : Feedback Int where
  diagnostics := [Diagnostic.errorAt ⟨⟨0, 600000000, 0⟩, ⟨0, 600000001, 0⟩⟩ "m"]

/-- The source has the line, and nothing is printed. -/
theorem farReport_refused :
    (∀ d ∈ farReport.diagnostics, d.span.start.Nonneg ∧ d.span.stop.Nonneg) ∧
    (∀ d ∈ farReport.diagnostics, OneLine d.value.message) ∧
    (∀ d ∈ farReport.diagnostics, (lines "abc")[d.span.start.line.toNat]? = some "abc") ∧
    farReport.format { source := some (.text "abc") } = .error .badRun := by
  exact ⟨by decide, by decide, by decide, by decide +kernel⟩

end Folio
