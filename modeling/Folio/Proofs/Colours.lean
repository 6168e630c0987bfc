import Folio.Proofs.Drawings

/-!
# Colours only decorate

The level, the place and the carets of a diagnostic are painted, each by itself and on one line.
Messages and source lines are not, and they may hold escape sequences of their own, or parts of
some. As they stand between blanks and line ends, no part of a sequence is ever completed by what
comes behind it.

Paint makes a text longer, and so it can be what a text has no more room for.

1. `Diagnostic.unpaint_header`, `Diagnostic.unpaint_rows`: what unpainting leaves, line by line.
2. `colours_only_decorate`: painted and plain feedback.
3. `brimfulReport_unpaintable`: a report that is only printed plain.
-/

namespace Folio

open Text Paint

/-! ## Lines -/

theorem Paint.unpaint_unlines (rows : List String) :
    unpaint (unlines rows) = unlines (rows.map unpaint) := by
  have feed : "\n".toList = ['\n'] := rfl
  induction rows with
  | nil => rfl
  | cons first rest ih =>
    cases rest with
    | nil => simp only [List.map_cons, List.map_nil, unlines_singleton]
    | cons next rest =>
      rw [unlines_cons_cons, String.append_assoc,
        unpaint_append_between feed (by decide) (by decide), ih, ← String.append_assoc]
      exact (unlines_cons_cons _ _ _).symm

/-- What unpainting leaves of a painted piece does not depend on what comes behind. -/
theorem Paint.unpaint_painted {s : String} (styles : List Style) (paints : Bool)
    (oneLine : OneLine s) (plain : '\x1b' ∉ s.toList) (t : String) :
    unpaint ((if paints then paint styles s else s) ++ t) = s ++ unpaint t := by
  cases paints with
  | true => exact unpaint_paint_append styles oneLine plain t
  | false => exact unpaint_plain_append plain t

theorem Paint.unpaint_painted_last {s : String} (styles : List Style) (paints : Bool)
    (oneLine : OneLine s) (plain : '\x1b' ∉ s.toList) :
    unpaint (if paints then paint styles s else s) = s := by
  have last := unpaint_painted styles paints oneLine plain ""
  rw [String.append_empty] at last
  exact last.trans String.append_empty

theorem Paint.EscapeFree.of_mem_lines {text line : String} (free : EscapeFree text)
    (member : line ∈ lines text) : EscapeFree line :=
  fun e escape inside => free e escape (inside.trans (infix_of_mem_lines member))

namespace Diagnostic

/-- The words that the program itself reports with. -/
def Known (d : Diagnostic) : Prop := d.level = .error ∨ d.level = .warning

instance (d : Diagnostic) : Decidable d.Known :=
  inferInstanceAs (Decidable (d.level = .error ∨ d.level = .warning))

theorem Known.name {d : Diagnostic} (known : d.Known) :
    OneLine d.level.name ∧ '\x1b' ∉ d.level.name.toList := by
  rcases known with error | warning
  · rw [error]
    decide
  · rw [warning]
    decide

theorem not_mem_place (d : Spanned Int Diagnostic) : '\x1b' ∉ (place d).toList :=
  not_mem_append
    (not_mem_append (by decide) (d.span.not_mem_format (by decide) (by decide) (by decide)))
    (by decide)

/-- Of a header unpainting leaves the level, the message without its own sequences, and the
place. -/
theorem unpaint_header {d : Spanned Int Diagnostic} (known : d.value.Known) (paints : Bool) :
    unpaint (header d paints) =
      d.value.level.name ++ (": " ++ (unpaint d.value.message ++ (" " ++ place d))) := by
  obtain ⟨oneLine, plain⟩ := known.name
  have level : ∀ t, unpaint (d.value.paintedLevel paints ++ t) = d.value.level.name ++ unpaint t :=
    unpaint_painted _ paints oneLine plain
  have colon : '\x1b' ∉ ": ".toList := by decide
  have blank : " ".toList = [' '] := rfl
  have located : unpaint (if paints then paint [dim] (place d) else place d) = place d :=
    unpaint_painted_last [dim] paints (oneLine_place d) (not_mem_place d)
  show unpaint (d.value.paintedLevel paints ++ ": " ++ d.value.message ++ " " ++
    if paints then paint [dim] (place d) else place d) = _
  rw [String.append_assoc, String.append_assoc, String.append_assoc, level,
    unpaint_plain_append colon, unpaint_append_between blank (by decide) (by decide), located]

end Diagnostic

namespace Excerpt.Drawing

theorem unpaint_sourceRow {d : Drawing} (plain : '\x1b' ∉ d.gutter.toList) :
    unpaint d.sourceRow = d.gutter ++ divider ++ unpaint d.row :=
  unpaint_plain_append (not_mem_append plain (by decide)) d.row

theorem unpaint_markerRow (d : Drawing) (paints : Bool) :
    unpaint (d.margin ++ d.marker paints) = d.markerRow := by
  have margin : '\x1b' ∉ d.margin.toList :=
    not_mem_append (not_mem_append (not_mem_copies _ (by decide)) (by decide))
      (not_mem_copies _ (by decide))
  have marker : unpaint (d.marker paints) = copies d.carets '^' :=
    unpaint_painted_last [tint .red] paints (oneLine_copies _ (by decide))
      (not_mem_copies _ (by decide))
  rw [unpaint_plain_append margin, marker, markerRow]

end Excerpt.Drawing

/-! ## Diagnostics -/

namespace Diagnostic

/-- What unpainting leaves of the lines of a diagnostic, painted or not. -/
def bareRows (d : Spanned Int Diagnostic) (source : Option String) : List String :=
  (d.value.level.name ++ (": " ++ (unpaint d.value.message ++ (" " ++ place d)))) ::
    (source.bind fun text => Excerpt.drawing? d.span text).elim [] fun drawing =>
      [drawing.gutter ++ Excerpt.Drawing.divider ++ unpaint drawing.row, drawing.markerRow]

theorem unpaint_rows {d : Spanned Int Diagnostic} (known : d.value.Known) (source : Option String)
    (paints : Bool) :
    ((shownEntry d source paints).rows paints).map unpaint = bareRows d source := by
  unfold shownEntry Entry.rows bareRows
  rw [List.map_cons, unpaint_header known]
  congr 1
  cases drawn : source.bind fun text => Excerpt.drawing? d.span text with
  | none => rfl
  | some drawing =>
    obtain ⟨text, _, drawn⟩ := Option.bind_eq_some_iff.mp drawn
    have gutter : '\x1b' ∉ drawing.gutter.toList := by
      rw [Excerpt.gutter_of_drawing? drawn]
      exact not_mem_append (not_mem_copies _ (by decide)) (not_mem_text (by decide) (by decide) _)
    show [unpaint drawing.sourceRow, unpaint (drawing.margin ++ drawing.marker paints)] = _
    rw [Excerpt.Drawing.unpaint_sourceRow gutter, drawing.unpaint_markerRow]
    rfl

/-- Where nobody else brought sequences in, the plain lines are left. -/
theorem bareRows_eq {d : Spanned Int Diagnostic} {source : Option String}
    (message : EscapeFree d.value.message) (text : ∀ s, source = some s → EscapeFree s) :
    bareRows d source = (shownEntry d source false).rows false := by
  unfold shownEntry Entry.rows bareRows
  rw [unpaint_eq_self_iff.mpr message]
  congr 1
  · rw [← String.append_assoc, ← String.append_assoc, ← String.append_assoc]
    rfl
  · cases drawn : source.bind fun text => Excerpt.drawing? d.span text with
    | none => rfl
    | some drawing =>
      obtain ⟨s, given, drawn⟩ := Option.bind_eq_some_iff.mp drawn
      have row : EscapeFree drawing.row :=
        EscapeFree.of_mem_lines (text s given) (Excerpt.row_of_drawing? drawn)
      show [drawing.gutter ++ Excerpt.Drawing.divider ++ unpaint drawing.row, drawing.markerRow] = _
      rw [unpaint_eq_self_iff.mpr row]
      rfl

/-- Paint makes lines longer, never shorter. -/
theorem units_rows_le {d : Spanned Int Diagnostic} (known : d.value.Known) (source : Option String)
    (paints : Bool) :
    List.Forall₂ (fun row painted => units row ≤ units painted)
      ((shownEntry d source false).rows false) ((shownEntry d source paints).rows paints) := by
  have longer : ∀ {s : String} (styles : List Style), OneLine s → '\x1b' ∉ s.toList →
      units s ≤ units (if paints then paint styles s else s) := by
    intro s styles oneLine plain
    split
    · exact units_le_units_paint styles oneLine plain
    · exact Nat.le_refl _
  obtain ⟨oneLine, plain⟩ := known.name
  have level : units d.value.level.name ≤ units (d.value.paintedLevel paints) :=
    longer _ oneLine plain
  have located := longer [dim] (oneLine_place d) (not_mem_place d)
  have header : units (header d false) ≤ units (header d paints) := by
    show units (d.value.level.name ++ ": " ++ d.value.message ++ " " ++ place d) ≤
      units (d.value.paintedLevel paints ++ ": " ++ d.value.message ++ " " ++
        if paints then paint [dim] (place d) else place d)
    simp only [units_append]
    omega
  refine .cons header ?_
  unfold shownEntry
  cases source.bind fun text => Excerpt.drawing? d.span text with
  | none => exact .nil
  | some drawing =>
    refine .cons (Nat.le_refl _) (.cons ?_ .nil)
    rw [units_append, units_append, drawing.units_marker, drawing.units_marker]
    simp

end Diagnostic

/-- Painted feedback is the plain one with escape sequences put in: whatever sequences, and parts of
some, messages and source come with, deleting all sequences leaves the same of both. If they come
with none, it leaves the plain text. Each of the two is printed unless it is longer than a text can
be, and the plain one is never the longer of them. -/
theorem colours_only_decorate (f : Feedback Int) (source : Option String) (support support' : Nat)
    (nonneg : ∀ d ∈ f.diagnostics, d.span.start.Nonneg)
    (known : ∀ d ∈ f.diagnostics, d.value.level = .error ∨ d.value.level = .warning) :
    ∃ painted plain,
      painted = f.shownText source (decide (0 < support)) ∧ plain = f.shownText source false ∧
      units plain ≤ units painted ∧
      (units painted ≤ maxUnits →
        f.format { colours := true, support, source := source.map .text } = .ok painted) ∧
      (maxUnits < units painted →
        f.format { colours := true, support, source := source.map .text } = .error .badRun) ∧
      (units plain ≤ maxUnits →
        f.format { colours := false, support := support', source := source.map .text } =
          .ok plain) ∧
      (maxUnits < units plain →
        f.format { colours := false, support := support', source := source.map .text } =
          .error .badRun) ∧
      unpaint painted = unpaint plain ∧
      ((∀ d ∈ f.diagnostics, EscapeFree d.value.message) →
        (∀ text, source = some text → EscapeFree text) → unpaint painted = plain) := by
  let paints := decide (0 < support)
  have bare : ∀ paints, unpaint (f.shownText source paints) =
      unlines (f.diagnostics.flatMap fun d => Diagnostic.bareRows d source) := by
    intro paints
    rw [Feedback.shownText, unpaint_unlines, List.map_flatMap, List.flatMap_def, List.flatMap_def,
      List.map_congr_left fun d member => Diagnostic.unpaint_rows (known d member) source paints]
  have painted : f.format { colours := true, support, source := source.map .text } =
      Diagnostic.printed (f.shownText source paints) :=
    Feedback.format_eq nonneg rfl
  have plain : f.format { colours := false, support := support', source := source.map .text } =
      Diagnostic.printed (f.shownText source false) :=
    Feedback.format_eq nonneg rfl
  have longer : units (f.shownText source false) ≤ units (f.shownText source paints) := by
    refine units_unlines_le ?_
    rw [List.flatMap_def, List.flatMap_def]
    refine List.rel_flatten (List.forall₂_map_left_iff.mpr (List.forall₂_map_right_iff.mpr ?_))
    exact List.forall₂_same.mpr fun d member =>
      Diagnostic.units_rows_le (known d member) source paints
  refine ⟨_, _, rfl, rfl, longer,
    fun short => painted.trans (Diagnostic.printed_of_short short),
    fun long => painted.trans (Diagnostic.printed_of_long long),
    fun short => plain.trans (Diagnostic.printed_of_short short),
    fun long => plain.trans (Diagnostic.printed_of_long long), ?_, ?_⟩
  · rw [bare, bare]
  · intro messages text
    rw [bare, Feedback.shownText, List.flatMap_def, List.flatMap_def,
      List.map_congr_left fun d member => Diagnostic.bareRows_eq (messages d member) text]

/-- A message of two lines, and one that begins an escape sequence. -/
def escapedReports : Feedback Int where
  diagnostics :=
    [Diagnostic.errorAt ⟨⟨0, 2, 2⟩, ⟨0, 4, 4⟩⟩ "two\nlines",
      Diagnostic.warningAt ⟨⟨3, 0, 9⟩, ⟨3, 0, 9⟩⟩ "half a \x1b[3"]

def escapedReportsPlain : String :=
  "error: two\nlines (at 1:3-1:5)\n" ++
  "   1 | abc\x1b[3\n" ++
  "     |   ^^\n" ++
  "warning: half a \x1b[3 (at 4:1-4:1)"

def escapedReportsPainted : String :=
  "\x1b[31m\x1b[1merror\x1b[22m\x1b[39m: two\nlines \x1b[2m(at 1:3-1:5)\x1b[22m\n" ++
  "   1 | abc\x1b[3\n" ++
  "     |   \x1b[31m^^\x1b[39m\n" ++
  "\x1b[33m\x1b[1mwarning\x1b[22m\x1b[39m: half a \x1b[3 \x1b[2m(at 4:1-4:1)\x1b[22m"

/-- The source line ends in the beginning of a sequence, too. -/
theorem escapedReports_decorated :
    (∀ d ∈ escapedReports.diagnostics, d.span.start.Nonneg) ∧
    (∀ d ∈ escapedReports.diagnostics, EscapeFree d.value.message) ∧ EscapeFree "abc\x1b[3" ∧
    escapedReports.format { colours := true, support := 1, source := some (.text "abc\x1b[3") } =
      .ok escapedReportsPainted ∧
    escapedReports.format { source := some (.text "abc\x1b[3") } = .ok escapedReportsPlain ∧
    unpaint escapedReportsPainted = escapedReportsPlain := by
  have nonneg : ∀ d ∈ escapedReports.diagnostics, d.span.start.Nonneg := by decide
  have known : ∀ d ∈ escapedReports.diagnostics,
      d.value.level = .error ∨ d.value.level = .warning := by decide
  have messages : ∀ d ∈ escapedReports.diagnostics, EscapeFree d.value.message := by decide
  have text : EscapeFree "abc\x1b[3" := by decide
  obtain ⟨painted, plain, paintedText, plainText, longer, printed, _, printed', _, _, left⟩ :=
    colours_only_decorate escapedReports (some "abc\x1b[3") 1 0 nonneg known
  replace paintedText : painted = escapedReportsPainted := paintedText.trans (by decide +kernel)
  replace plainText : plain = escapedReportsPlain := plainText.trans (by decide +kernel)
  subst paintedText plainText
  have short : units escapedReportsPainted ≤ maxUnits := by decide +kernel
  refine ⟨nonneg, messages, text, printed short, printed' (Nat.le_trans longer short),
    left messages ?_⟩
  intro s same
  cases same
  exact text

/-- A report whose blanks leave no room for paint. -/
def brimfulReport : Feedback Int where
  diagnostics := [Diagnostic.errorAt ⟨⟨0, 536870820, 0⟩, ⟨0, 536870821, 0⟩⟩ "m"]

/-- The plain text is printed and the painted one is not. -/
theorem brimfulReport_unpaintable :
    (∀ d ∈ brimfulReport.diagnostics, d.span.start.Nonneg ∧ d.span.stop.Nonneg ∧
      d.value.level = .error ∧ EscapeFree d.value.message) ∧
    EscapeFree "abc" ∧
    (∃ plain, brimfulReport.format { source := some (.text "abc") } = .ok plain) ∧
    brimfulReport.format { colours := true, support := 1, source := some (.text "abc") } =
      .error .badRun := by
  have fits : (brimfulReport.format { source := some (.text "abc") }).isOk = true := by
    decide +kernel
  refine ⟨by decide, by decide, ?_, by decide +kernel⟩
  cases printed : brimfulReport.format { source := some (.text "abc") } with
  | ok plain => exact ⟨plain, rfl⟩
  | error why =>
    rw [printed] at fits
    cases fits

end Folio
