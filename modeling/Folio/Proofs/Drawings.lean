import Folio.Excerpt
import Folio.Proofs.Escapes
import Folio.Proofs.PositionOrder

/-!
# What diagnostics show

A diagnostic is shown as a header, with an excerpt of two lines below it if its span starts on a
line of the source. Only lengths can keep it from being shown, as long as the span starts at no
negative place.

1. `Excerpt.Drawing.caret_iff`: where the carets of a drawing stand.
2. `Excerpt.draw_eq`: the drawing of a span.
3. `Diagnostic.format_eq`, `Feedback.format_eq`: the text of one diagnostic, and of all.
-/

namespace Folio

open Text

/-! ## Drawings -/

namespace Excerpt.Drawing

/-- The unit of a caret. -/
def caret : Nat := '^'.toNat

/-- The source line behind its number. -/
def sourceRow (d : Drawing) : String := d.gutter ++ divider ++ d.row

/-- What stands below it in front of the carets. -/
def margin (d : Drawing) : String :=
  copies (Text.units d.gutter) ' ' ++ divider ++ copies d.indent ' '

/-- The line below it, without paint. -/
def markerRow (d : Drawing) : String := d.margin ++ copies d.carets '^'

/-- The two lines of a drawing. -/
def rows (d : Drawing) (paints : Bool) : List String := [d.sourceRow, d.margin ++ d.marker paints]

theorem render_eq (d : Drawing) (paints : Bool) : d.render paints = unlines (d.rows paints) := rfl

/-- What paint adds to the carets is the same for any number of them. -/
theorem units_marker (d : Drawing) (paints : Bool) :
    Text.units (d.marker paints) =
      d.carets + if paints && decide (0 < d.carets)
        then Text.units ((Drawing.mk "" "" 0 1).marker true) - 1 else 0 := by
  have small : '^'.toNat < 0x10000 := by decide
  have painted : ∀ n, 0 < n → Text.units (Paint.paint [Paint.tint .red] (copies n '^')) =
      Text.units (Paint.opening [Paint.tint .red]) + n +
        Text.units (Paint.closing [Paint.tint .red]) := by
    intro n positive
    have some : copies n '^' ≠ "" := by
      intro empty
      rw [← units_copies n small, empty] at positive
      cases positive
    rw [Paint.paint_eq _ some (oneLine_copies n (by decide)) (not_mem_copies n (by decide)),
      units_append, units_append, units_copies n small]
  cases paints with
  | false => exact units_copies _ small
  | true =>
    rcases Nat.eq_zero_or_pos d.carets with none | positive
    · have unmarked : d.marker true = "" := by
        unfold marker
        rw [none]
        rfl
      rw [unmarked, none]
      rfl
    · have one := painted 1 Nat.one_pos
      have all := painted d.carets positive
      simp only [marker, Bool.true_and, positive, decide_true, if_true]
      omega

/-- The length that is found without drawing is that of the drawing. -/
theorem units_eq (d : Drawing) (paints : Bool) : d.units paints = Text.units (d.render paints) := by
  have blank : ' '.toNat < 0x10000 := by decide
  have feed : Text.units "\n" = 1 := by decide
  rw [render_eq, rows, unlines_pair, sourceRow, margin, units]
  simp only [units_append, d.units_marker paints, units_copies _ blank, feed]
  omega

theorem units_margin (d : Drawing) :
    Text.units d.margin = Text.units (d.gutter ++ divider) + d.indent := by
  have blank : ' '.toNat < 0x10000 := by decide
  rw [margin, units_append, units_append, units_append, units_copies _ blank,
    units_copies _ blank]

theorem caret_not_mem_margin (d : Drawing) : caret ∉ unitValues d.margin.toList := by
  have blank : ' '.toNat < 0x10000 := by decide
  have blanks : ∀ n, caret ∉ unitValues (copies n ' ').toList := by
    intro n
    rw [copies, String.toList_ofList, unitValues_replicate n blank, List.mem_replicate]
    exact fun member => absurd member.2 (by decide)
  have between : caret ∉ unitValues divider.toList := by decide
  rw [margin, String.toList_append, String.toList_append, unitValues_append, unitValues_append,
    List.mem_append, List.mem_append]
  rintro ((inGutter | inDivider) | inIndent)
  · exact blanks _ inGutter
  · exact between inDivider
  · exact blanks _ inIndent

/-- The carets stand where the marked columns of the source line are, and nowhere else. -/
theorem caret_iff (d : Drawing) (k : Nat) :
    (unitValues d.markerRow.toList)[k]? = some caret ↔
      Text.units (d.gutter ++ divider) + d.indent ≤ k ∧
      k < Text.units (d.gutter ++ divider) + d.indent + d.carets := by
  have row : unitValues d.markerRow.toList =
      unitValues d.margin.toList ++ List.replicate d.carets caret := by
    rw [markerRow, String.toList_append, unitValues_append, copies,
      String.toList_ofList, unitValues_replicate _ (by decide), caret]
  have length : (unitValues d.margin.toList).length =
      Text.units (d.gutter ++ divider) + d.indent := by
    rw [length_unitValues, ← units_margin, Text.units]
  rw [row, List.getElem?_append, ← length]
  split
  next before =>
    constructor
    · exact fun found => absurd (List.mem_of_getElem? found) d.caret_not_mem_margin
    · exact fun behind => absurd before (Nat.not_lt.mpr behind.1)
  next behind =>
    rw [List.getElem?_replicate]
    split
    next within => exact ⟨fun _ => ⟨by omega, by omega⟩, fun _ => rfl⟩
    next past =>
      constructor
      · intro found
        cases found
      · intro within
        exact absurd within.2 (by omega)

/-- The same, counted from where the source line begins. -/
theorem caret_iff_column (d : Drawing) (k : Nat) :
    (unitValues d.markerRow.toList)[k]? = some caret ↔
      ∃ c, k = Text.units (d.gutter ++ divider) + c ∧ d.indent ≤ c ∧ c < d.indent + d.carets := by
  rw [caret_iff]
  constructor
  · rintro ⟨behind, before⟩
    exact ⟨k - Text.units (d.gutter ++ divider), by omega, by omega, by omega⟩
  · rintro ⟨c, rfl, behind, before⟩
    omega

theorem oneLine_sourceRow {d : Drawing} (gutter : OneLine d.gutter) (row : OneLine d.row) :
    OneLine d.sourceRow :=
  (gutter.append (by decide)).append row

theorem oneLine_markerRow (d : Drawing) : OneLine d.markerRow :=
  (((oneLine_copies _ (by decide)).append (by decide)).append (oneLine_copies _ (by decide))).append
    (oneLine_copies _ (by decide))

end Excerpt.Drawing

/-! ## The drawing of a span -/

theorem Coordinate.index?_natCast (n : Nat) : Coordinate.index? (n : Int) = some n := by
  have same : ((n : Int) == (n : Int)) = true := beq_self_eq_true _
  exact if_pos same

namespace Excerpt

/-- The column that the carets go up to: where the span ends, or the line if the span goes on
below it. -/
def lastColumn (span : Span Int) (line : String) : Int :=
  if span.stop.line = span.start.line then span.stop.column else Text.units line

/-- The number of carets, never less than one. -/
def caretCount (span : Span Int) (line : String) : Nat :=
  if lastColumn span line - span.start.column < 1 then 1
  else (lastColumn span line - span.start.column).toNat

theorem caretCount_pos (span : Span Int) (line : String) : 0 < caretCount span line := by
  unfold caretCount
  split
  · exact Nat.one_pos
  · omega

/-- What is drawn of a span that starts on this line. -/
def drawingOn (span : Span Int) (line : String) : Drawing :=
  ⟨padLeft 4 (toString (span.start.line + 1)), line, span.start.column.toNat,
    caretCount span line⟩

theorem oneLine_gutter (span : Span Int) (line : String) : OneLine (drawingOn span line).gutter :=
  oneLine_padLeft 4 (oneLine_text _)

/-- What is drawn of a span that starts at no negative place. -/
def drawing? (span : Span Int) (source : String) : Option Drawing :=
  (lines source)[span.start.line.toNat]?.map (drawingOn span)

theorem gutter_of_drawing? {span : Span Int} {source : String} {drawing : Drawing}
    (drawn : drawing? span source = some drawing) :
    drawing.gutter = padLeft 4 (toString (span.start.line + 1)) := by
  obtain ⟨line, _, rfl⟩ := Option.map_eq_some_iff.mp drawn
  rfl

theorem row_of_drawing? {span : Span Int} {source : String} {drawing : Drawing}
    (drawn : drawing? span source = some drawing) : drawing.row ∈ lines source := by
  obtain ⟨line, here, rfl⟩ := Option.map_eq_some_iff.mp drawn
  exact List.mem_of_getElem? here

theorem width_eq (span : Span Int) (line : String) :
    width span (some line) = .ok (caretCount span line : Int) := by
  have most : (if lastColumn span line - span.start.column < 1 then 1
      else lastColumn span line - span.start.column) = (caretCount span line : Int) := by
    unfold caretCount
    split
    · rfl
    · omega
  rw [← most]
  unfold width lastColumn
  by_cases same : span.stop.line = span.start.line
  · rw [if_pos (beq_iff_eq.mpr same), if_pos same]
    rfl
  · rw [if_neg (by simpa using same), if_neg same]
    rfl

theorem length_eq {columns : Int} (nonneg : 0 ≤ columns) : length columns = .ok columns.toNat := by
  obtain ⟨n, rfl⟩ := Int.eq_ofNat_of_zero_le nonneg
  rfl

theorem draw_eq {span : Span Int} (nonneg : span.start.Nonneg) (source : String) :
    draw span source = .ok (drawing? span source) := by
  obtain ⟨row, startLine⟩ := Int.eq_ofNat_of_zero_le nonneg.1
  have place : span.start.line.toNat = row := by
    rw [startLine]
    rfl
  unfold draw drawing?
  rw [place]
  by_cases inside : row < (lines source).length
  · have here : (lines source)[row]? = some ((lines source).get ⟨row, inside⟩) := by simp
    have reached : ¬ ((lines source).length : Int) ≤ span.start.line := by
      rw [startLine]
      exact Int.not_le.mpr (Int.ofNat_lt.mpr inside)
    have found : ((Coordinate.index? span.start.line).bind fun i => (lines source)[i]?) =
        some ((lines source).get ⟨row, inside⟩) := by
      rw [startLine, Coordinate.index?_natCast]
      exact here
    simp only [found, width_eq, length_eq nonneg.2, here]
    rw [if_neg reached]
    rfl
  · have below : ((lines source).length : Int) ≤ span.start.line := by
      rw [startLine]
      exact Int.ofNat_le.mpr (Nat.not_lt.mp inside)
    rw [if_pos below, List.getElem?_eq_none (Nat.not_lt.mp inside)]
    rfl

end Excerpt

/-! ## Entries -/

/-- A span is written with digits, signs and colons. -/
theorem Span.not_mem_format {c : Char} (digit : c.isDigit = false) (sign : c ≠ '-')
    (colon : c ≠ ':') (span : Span Int) : c ∉ span.format.toList := by
  have position : ∀ p : Position Int, c ∉ p.format.toList := by
    intro p
    have between : c ∉ ":".toList := by simpa using colon
    exact not_mem_append (not_mem_append (not_mem_text digit sign _) between)
      (not_mem_text digit sign _)
  have between : c ∉ "-".toList := by simpa using sign
  exact not_mem_append (not_mem_append (position _) between) (position _)

namespace Diagnostic

/-- A text, unless it is longer than a text can be. -/
def printed (text : String) : Except Unprintable String :=
  if Text.units text ≤ maxUnits then .ok text else .error .badRun

theorem printed_of_short {text : String} (short : Text.units text ≤ maxUnits) :
    printed text = .ok text :=
  if_pos short

theorem printed_of_long {text : String} (long : maxUnits < Text.units text) :
    printed text = .error .badRun :=
  if_neg (Nat.not_le.mpr long)

namespace Entry

/-- The header and the lines below it. -/
def rows (e : Entry) (paints : Bool) : List String :=
  e.header :: e.drawing.elim [] fun drawing => drawing.rows paints

theorem render_eq (e : Entry) (paints : Bool) : e.render paints = unlines (e.rows paints) := by
  obtain ⟨header, drawing⟩ := e
  cases drawing with
  | none => exact (unlines_singleton header).symm
  | some drawing =>
    show unlines [header, drawing.render paints] = unlines (header :: drawing.rows paints)
    rw [drawing.render_eq, unlines_pair]
    exact (unlines_cons_cons _ _ _).symm

theorem units_eq (e : Entry) (paints : Bool) : e.units paints = Text.units (e.render paints) := by
  obtain ⟨header, drawing⟩ := e
  cases drawing with
  | none => rfl
  | some drawing =>
    have feed : Text.units "\n" = 1 := by decide
    show Text.units header + 1 + drawing.units paints =
      Text.units (unlines [header, drawing.render paints])
    rw [drawing.units_eq, unlines_pair, units_append, units_append, feed]

theorem check_eq (e : Entry) (paints : Bool) :
    e.check paints = (printed (e.render paints)).map fun _ => e := by
  unfold check printed
  rw [e.units_eq]
  split
  · rfl
  · rfl

end Entry

/-- The place of a diagnostic as the header tells it. -/
def place (d : Spanned Int Diagnostic) : String := "(at " ++ d.span.format ++ ")"

theorem oneLine_place (d : Spanned Int Diagnostic) : OneLine (place d) :=
  (OneLine.append (by decide) (d.span.not_mem_format (by decide) (by decide) (by decide))).append
    (by decide)

theorem oneLine_header {d : Spanned Int Diagnostic} (level : OneLine d.value.level.name)
    (message : OneLine d.value.message) : OneLine (header d false) :=
  (((level.append (by decide)).append message).append (by decide)).append (oneLine_place d)

/-- What is shown of a diagnostic whose span starts at no negative place. -/
def shownEntry (d : Spanned Int Diagnostic) (source : Option String) (paints : Bool) : Entry :=
  ⟨header d paints, source.bind fun text => Excerpt.drawing? d.span text⟩

theorem entry_eq {d : Spanned Int Diagnostic} (nonneg : d.span.start.Nonneg) {display : Display}
    {source : Option String} (given : display.source = source.map .text) :
    entry d display = (shownEntry d source display.paints).check display.paints := by
  unfold entry shownEntry
  rw [given]
  cases source with
  | none => rfl
  | some text =>
    simp only [Option.map_some, Excerpt.draw_eq nonneg]
    rfl

/-- A diagnostic is shown with its excerpt, if there is one. -/
theorem format_eq {d : Spanned Int Diagnostic} (nonneg : d.span.start.Nonneg) {display : Display}
    {source : Option String} (given : display.source = source.map .text) :
    format d display = printed ((shownEntry d source display.paints).render display.paints) := by
  unfold format
  rw [entry_eq nonneg given, Entry.check_eq]
  unfold printed
  split
  · rfl
  · rfl

/-- A diagnostic whose span starts on a line of the source. -/
theorem format_on_line {d : Spanned Int Diagnostic} {source line : String}
    (nonneg : d.span.start.Nonneg) (here : (lines source)[d.span.start.line.toNat]? = some line)
    (support : Nat) :
    format d { support, source := some (.text source) } =
      printed (unlines (header d false :: (Excerpt.drawingOn d.span line).rows false)) := by
  have drawn : Excerpt.drawing? d.span source = some (Excerpt.drawingOn d.span line) :=
    congrArg (Option.map _) here
  have shown : shownEntry d (some source) false =
      ⟨header d false, some (Excerpt.drawingOn d.span line)⟩ :=
    congrArg (Entry.mk (header d false)) drawn
  have formatted : format d { support, source := some (.text source) } =
      printed ((shownEntry d (some source) false).render false) :=
    format_eq nonneg rfl
  rw [formatted, shown, Entry.render_eq]
  rfl

/-- Below a header of any number of lines, an excerpt takes up two. -/
theorem lines_excerpt {source line : String} (header : String) (span : Span Int)
    (member : line ∈ lines source) :
    lines (unlines (header :: (Excerpt.drawingOn span line).rows false)) =
      lines header ++
        [(Excerpt.drawingOn span line).sourceRow, (Excerpt.drawingOn span line).markerRow] := by
  let drawing := Excerpt.drawingOn span line
  have excerpt : lines (unlines [drawing.sourceRow, drawing.markerRow]) =
      [drawing.sourceRow, drawing.markerRow] := by
    refine lines_unlines (List.cons_ne_nil _ _) fun s inside => ?_
    rcases List.mem_pair.mp inside with rfl | rfl
    · exact Excerpt.Drawing.oneLine_sourceRow (Excerpt.oneLine_gutter span line)
        (oneLine_of_mem_lines member)
    · exact drawing.oneLine_markerRow
  show lines (unlines (header :: drawing.sourceRow :: [drawing.markerRow])) = _
  rw [unlines_cons_cons, lines_append_newline, excerpt]

/-! ## All diagnostics -/

theorem totalUnits_eq (entries : List Entry) (paints : Bool) :
    totalUnits entries paints = Text.units (unlines (entries.map fun e => e.render paints)) := by
  -- What was added up before the first entry is `n`; the line ends are all counted at the start.
  have added : ∀ (rest : List Entry) (e : Entry) (n : Nat),
      rest.foldl (fun n e => n + e.units paints) (n + e.units paints + rest.length) =
        n + Text.units (unlines ((e :: rest).map fun e => e.render paints)) := by
    intro rest
    induction rest with
    | nil =>
      intro e n
      rw [List.map_singleton, unlines_singleton, ← e.units_eq]
      rfl
    | cons next rest ih =>
      intro e n
      have first : n + e.units paints + (next :: rest).length + next.units paints =
          n + e.units paints + 1 + next.units paints + rest.length := by
        rw [List.length_cons]
        omega
      rw [List.foldl_cons, first, ih, e.units_eq]
      simp only [List.map_cons, units_unlines_cons_cons]
      omega
  cases entries with
  | nil => rfl
  | cons e rest =>
    have first : (e :: rest).length - 1 + e.units paints = 0 + e.units paints + rest.length := by
      rw [List.length_cons, Nat.add_sub_cancel, Nat.add_comm, Nat.zero_add]
    rw [totalUnits, List.foldl_cons, first, added, Nat.zero_add]

/-- Entries are all made, unless one is too long. -/
theorem mapM_eq_of_check {β : Type} {items : List β} {f : β → Except Unprintable Entry}
    {make : β → Entry} {paints : Bool}
    (checked : ∀ item ∈ items, f item = (make item).check paints) :
    items.mapM f =
      if ∀ item ∈ items, Text.units ((make item).render paints) ≤ maxUnits
      then .ok (items.map make) else .error .badRun := by
  induction items with
  | nil => rfl
  | cons item rest ih =>
    rw [List.forall_mem_cons] at checked
    rw [List.mapM_cons, ih checked.2, checked.1, Entry.check, Entry.units_eq]
    simp only [List.forall_mem_cons]
    by_cases fits : Text.units ((make item).render paints) ≤ maxUnits
    · by_cases others : ∀ item ∈ rest, Text.units ((make item).render paints) ≤ maxUnits
      · rw [if_pos fits, if_pos others, if_pos ⟨fits, others⟩]
        rfl
      · rw [if_pos fits, if_neg others, if_neg fun all => others all.2]
        rfl
    · have some : ¬ (Text.units ((make item).render paints) ≤ maxUnits ∧
          ∀ item ∈ rest, Text.units ((make item).render paints) ≤ maxUnits) := fun all => fits all.1
      rw [if_neg fits, if_neg some]
      rfl

end Diagnostic

namespace Feedback

/-- Once all entries are made, only the length of the whole counts. -/
theorem format_of_entries {f : Feedback Int} {display : Display} {entries : List Diagnostic.Entry}
    (made : (f.diagnostics.mapM fun d => Diagnostic.entry d display) = .ok entries) :
    f.format display =
      Diagnostic.printed (unlines (entries.map fun e => e.render display.paints)) := by
  have total := Diagnostic.totalUnits_eq entries display.paints
  unfold Feedback.format Diagnostic.printed
  rw [made, ← total]
  show (if maxUnits < Diagnostic.totalUnits entries display.paints then _ else _) = _
  by_cases short : Diagnostic.totalUnits entries display.paints ≤ maxUnits
  · rw [if_pos short, if_neg (Nat.not_lt.mpr short)]
    rfl
  · rw [if_neg short, if_pos (Nat.not_le.mp short)]
    rfl

/-- The diagnostics one below the other. -/
def shownText (f : Feedback Int) (source : Option String) (paints : Bool) : String :=
  unlines (f.diagnostics.flatMap fun d => (Diagnostic.shownEntry d source paints).rows paints)

/-- All diagnostics are shown, unless the whole is longer than a text can be. -/
theorem format_eq {f : Feedback Int} (nonneg : ∀ d ∈ f.diagnostics, d.span.start.Nonneg)
    {display : Display} {source : Option String} (given : display.source = source.map .text) :
    f.format display = Diagnostic.printed (f.shownText source display.paints) := by
  let make := fun d => Diagnostic.shownEntry d source display.paints
  have text : unlines ((f.diagnostics.map make).map fun e => e.render display.paints) =
      f.shownText source display.paints := by
    rw [shownText, List.flatMap_def, ← unlines_flatten (by simp [Diagnostic.Entry.rows]),
      List.map_map, List.map_map]
    exact congrArg unlines (List.map_congr_left fun d _ => (make d).render_eq display.paints)
  have made := Diagnostic.mapM_eq_of_check fun d member =>
    Diagnostic.entry_eq (nonneg d member) given
  by_cases fits : ∀ d ∈ f.diagnostics, Text.units ((make d).render display.paints) ≤ maxUnits
  · rw [if_pos fits] at made
    rw [format_of_entries made, text]
  · -- An entry that is too long makes the whole too long.
    have long : ¬ Text.units (f.shownText source display.paints) ≤ maxUnits := by
      rw [← text]
      refine fun short => fits fun d member => Nat.le_trans (units_le_units_unlines ?_) short
      exact List.mem_map_of_mem (List.mem_map_of_mem member)
    rw [if_neg fits] at made
    unfold Feedback.format
    rw [made, Diagnostic.printed_of_long (Nat.not_le.mp long)]
    rfl

end Feedback

end Folio
