import Folio.Proofs.WholeOrder
import Folio.Proofs.Drawings
import Folio.Failure.Json

/-!
# Locations

A location is four numbers with two colons and a hyphen between them, and a hyphen is also the sign
of a number. It can be taken apart all the same: colons stand in no number, and a hyphen that
separates two numbers has a digit before it, which that of a sign has not.

1. `Span.format_eq_iff`: the location of a span in whole numbers.
2. `Diagnostic.format_eq_of_header`, `Failure.format_eq_of_describe`: locations within other texts.
3. `Span.Stands.format_eq_iff`: the location of a span in doubles, by the numbers it shows.
4. `locations_identify_places`: what follows for the places themselves.
-/

namespace Folio

open Text ReadingBackLemmas

/-! ## Texts that are put together -/

namespace LocationsLemmas

variable {c : Char} {s s' t t' : List Char}

/-- A text is cut at the first of a character in one way only. -/
theorem eq_of_first (before : c ∉ s) (before' : c ∉ s') (same : s ++ c :: t = s' ++ c :: t') :
    s = s' ∧ t = t' := by
  induction s generalizing s' with
  | nil =>
    cases s' with
    | nil => exact ⟨rfl, (List.cons.inj same).2⟩
    | cons d rest => exact absurd (List.mem_cons.mpr (.inl (List.cons.inj same).1)) before'
  | cons d rest ih =>
    cases s' with
    | nil => exact absurd (List.mem_cons.mpr (.inl (List.cons.inj same).1.symm)) before
    | cons d' rest' =>
      obtain ⟨rfl, tails⟩ := List.cons.inj same
      obtain ⟨rfl, rfl⟩ := ih (mt (List.mem_cons_of_mem d) before)
        (mt (List.mem_cons_of_mem d) before') tails
      exact ⟨rfl, rfl⟩

/-- And so it is at the last. -/
theorem eq_of_last (behind : c ∉ t) (behind' : c ∉ t') (same : s ++ c :: t = s' ++ c :: t') :
    s = s' ∧ t = t' := by
  have mirrored := congrArg List.reverse same
  rw [List.reverse_append, List.reverse_append, List.reverse_cons, List.reverse_cons,
    List.append_assoc, List.append_assoc] at mirrored
  obtain ⟨tails, heads⟩ := eq_of_first (mt List.mem_reverse.mp behind)
    (mt List.mem_reverse.mp behind') mirrored
  exact ⟨List.reverse_inj.mp heads, List.reverse_inj.mp tails⟩

/-! ## Numbers with a sign -/

theorem hyphen_not_mem_repr (n : Nat) : '-' ∉ n.repr.toList :=
  fun member => absurd (isDigit_of_mem_repr member) (by decide)

theorem text_of_nonneg {n : Int} (nonneg : 0 ≤ n) : Coordinate.text n = n.toNat.repr :=
  Int.toString_eq_repr.trans (Int.repr_eq_if.trans (if_pos nonneg))

theorem text_of_neg {n : Int} (negative : n < 0) :
    (Coordinate.text n).toList = '-' :: (-n).toNat.repr.toList := by
  have written : Coordinate.text n = "-" ++ (-n).toNat.repr :=
    Int.toString_eq_repr.trans (Int.repr_eq_if.trans (if_neg (Int.not_le.mpr negative)))
  rw [written, String.toList_append]
  rfl

theorem text_inj {n m : Int} : Coordinate.text n = Coordinate.text m ↔ n = m := Int.repr_inj

/-- A hyphen after a number is told from the sign of the number, and from that of the next. -/
theorem eq_of_hyphen {n m : Int}
    (same : (Coordinate.text n).toList ++ '-' :: t = (Coordinate.text m).toList ++ '-' :: t') :
    n = m ∧ t = t' := by
  -- A number without a sign starts with a digit.
  have apart {n m : Int} {t t' : List Char} (nonneg : 0 ≤ n) (negative : m < 0) :
      (Coordinate.text n).toList ++ '-' :: t ≠ (Coordinate.text m).toList ++ '-' :: t' := by
    intro same
    rw [text_of_nonneg nonneg, text_of_neg negative, Nat.toList_repr] at same
    cases digits : Nat.toDigits 10 n.toNat with
    | nil => exact Nat.toDigits_ne_nil digits
    | cons d rest =>
      rw [digits] at same
      have sign : d = '-' := (List.cons.inj same).1
      have digit : d ∈ n.toNat.repr.toList := by
        rw [Nat.toList_repr, digits]
        exact List.mem_cons_self
      exact hyphen_not_mem_repr _ (sign ▸ digit)
  rcases lt_or_ge n 0 with negative | nonneg
  · rcases lt_or_ge m 0 with negative' | nonneg'
    · rw [text_of_neg negative, text_of_neg negative'] at same
      obtain ⟨digits, rest⟩ := eq_of_first (hyphen_not_mem_repr _) (hyphen_not_mem_repr _)
        (List.cons.inj same).2
      have := Nat.repr_inj.mp (String.toList_inj.mp digits)
      exact ⟨by omega, rest⟩
    · exact absurd same.symm (apart nonneg' negative)
  · rcases lt_or_ge m 0 with negative' | nonneg'
    · exact absurd same (apart nonneg negative')
    · rw [text_of_nonneg nonneg, text_of_nonneg nonneg'] at same
      obtain ⟨digits, rest⟩ := eq_of_first (hyphen_not_mem_repr _) (hyphen_not_mem_repr _) same
      have := Nat.repr_inj.mp (String.toList_inj.mp digits)
      exact ⟨by omega, rest⟩

theorem colon_not_mem_text (n : Int) : ':' ∉ (Coordinate.text n).toList :=
  not_mem_text (by decide) (by decide) n

end LocationsLemmas

open LocationsLemmas

theorem Position.toList_format {α : Type} [Coordinate α] (p : Position α) :
    p.format.toList = (Coordinate.text (p.line + 1)).toList ++
      ':' :: (Coordinate.text (p.column + 1)).toList := by
  unfold format
  rw [String.toList_append, String.toList_append, List.append_assoc]
  rfl

namespace Span

theorem toList_format {α : Type} [Coordinate α] (s : Span α) :
    s.format.toList = (Coordinate.text (s.start.line + 1)).toList ++
      ':' :: ((Coordinate.text (s.start.column + 1)).toList ++
        '-' :: ((Coordinate.text (s.stop.line + 1)).toList ++
          ':' :: (Coordinate.text (s.stop.column + 1)).toList)) := by
  unfold format
  rw [String.toList_append, String.toList_append, Position.toList_format, Position.toList_format,
    List.append_assoc, List.append_assoc]
  rfl

/-- Where numbers are exact, a location is that of one place only. -/
theorem format_eq_iff {s t : Span Int} : s.format = t.format ↔ s.SamePlaces t := by
  constructor
  · intro same
    have letters := congrArg String.toList same
    rw [toList_format, toList_format] at letters
    obtain ⟨startLine, rest⟩ := eq_of_first (colon_not_mem_text _) (colon_not_mem_text _) letters
    obtain ⟨startColumn, rest⟩ := eq_of_hyphen rest
    obtain ⟨stopLine, stopColumn⟩ := eq_of_first (colon_not_mem_text _) (colon_not_mem_text _) rest
    have := text_inj.mp (String.toList_inj.mp startLine)
    have := text_inj.mp (String.toList_inj.mp stopLine)
    have := text_inj.mp (String.toList_inj.mp stopColumn)
    exact ⟨⟨by omega, by omega⟩, by omega, by omega⟩
  · rintro ⟨⟨startLine, startColumn⟩, stopLine, stopColumn⟩
    unfold format Position.format
    rw [startLine, startColumn, stopLine, stopColumn]

end Span

/-! ## Texts with a location in them -/

/-- `s.IsPlain`: the location is written like one of whole numbers. -/
def Span.IsPlain {α : Type} [Coordinate α] (s : Span α) : Prop :=
  ∃ t : Span Int, s.format = t.format

section

variable {α : Type} [Coordinate α] {s t : Span α}

theorem Span.IsPlain.not_mem {c : Char} (plain : s.IsPlain) (digit : c.isDigit = false)
    (sign : c ≠ '-') (colon : c ≠ ':') : c ∉ s.format.toList := by
  obtain ⟨t, same⟩ := plain
  rw [same]
  exact Span.not_mem_format digit sign colon t

namespace Diagnostic

/-- What follows the location in a header. -/
def headerEnd (paints : Bool) : String :=
  if paints then ")" ++ Paint.closing [Paint.dim] else ")"

/-- A header ends with the location of the span. -/
theorem exists_header_eq (plain : s.IsPlain) (d : Diagnostic) (paints : Bool) :
    ∃ start, (header ⟨s, d⟩ paints).toList =
      start ++ '(' :: ("at ".toList ++ (s.format.toList ++ (headerEnd paints).toList)) := by
  have bracket : "(at ".toList = '(' :: "at ".toList := rfl
  have lineEnd : '\n' ∉ ("(at " ++ s.format ++ ")").toList :=
    not_mem_append (not_mem_append (by decide) (plain.not_mem (by decide) (by decide) (by decide)))
      (by decide)
  have escape : '\x1b' ∉ ("(at " ++ s.format ++ ")").toList :=
    not_mem_append (not_mem_append (by decide) (plain.not_mem (by decide) (by decide) (by decide)))
      (by decide)
  have some : "(at " ++ s.format ++ ")" ≠ "" := by
    intro empty
    have letters := congrArg String.toList empty
    rw [String.toList_append, String.toList_append, bracket] at letters
    cases letters
  unfold header headerEnd
  cases paints with
  | false =>
    refine ⟨(d.paintedLevel false ++ ": " ++ d.message ++ " ").toList, ?_⟩
    simp only [Bool.false_eq_true, if_false, String.toList_append, bracket, List.append_assoc,
      List.cons_append]
  | true =>
    refine ⟨(d.paintedLevel true ++ ": " ++ d.message ++ " " ++
      Paint.opening [Paint.dim]).toList, ?_⟩
    simp only [if_true, Paint.paint_eq [Paint.dim] some lineEnd escape, String.toList_append,
      bracket, List.append_assoc, List.cons_append]

theorem format_eq_of_header (plain : s.IsPlain) (plain' : t.IsPlain) {d d' : Diagnostic}
    {paints : Bool} (same : header ⟨s, d⟩ paints = header ⟨t, d'⟩ paints) :
    s.format = t.format := by
  obtain ⟨start, text⟩ := exists_header_eq plain d paints
  obtain ⟨start', text'⟩ := exists_header_eq plain' d' paints
  have bracket {s : Span α} (plain : s.IsPlain) :
      '(' ∉ "at ".toList ++ (s.format.toList ++ (headerEnd paints).toList) := by
    rw [List.mem_append, List.mem_append, not_or, not_or]
    refine ⟨by decide, plain.not_mem (by decide) (by decide) (by decide), ?_⟩
    cases paints <;> decide
  rw [← String.toList_inj, text, text'] at same
  have tails := List.append_cancel_left (eq_of_last (bracket plain) (bracket plain') same).2
  exact String.toList_inj.mp (List.append_cancel_right tails)

end Diagnostic

namespace Failure

theorem describe_eq {f : Failure α} (span : f.span? = some s) :
    ∃ start, f.describe.toList =
      (start ++ ' ' :: s.format.toList ++ [' ']) ++
        '(' :: ("Severity: ".toList ++ f.severity.name.toList ++ [')']) := by
  have place : " at ".toList = " at".toList ++ [' '] := rfl
  have bracket : " (Severity: ".toList = [' '] ++ '(' :: "Severity: ".toList := rfl
  have closing : ")".toList = [')'] := rfl
  refine ⟨("[" ++ f.code ++ "] " ++ f.message ++ " at").toList, ?_⟩
  simp only [describe, span, Option.map_some, Option.getD_some, String.toList_append, place,
    bracket, closing, List.append_assoc, List.cons_append, List.nil_append]

theorem format_eq_of_describe {f f' : Failure α} (plain : s.IsPlain) (plain' : t.IsPlain)
    (span : f.span? = some s) (span' : f'.span? = some t) (known : f.severity ∈ Severity.all)
    (known' : f'.severity ∈ Severity.all) (same : f.describe = f'.describe) :
    s.format = t.format := by
  obtain ⟨start, text⟩ := describe_eq span
  obtain ⟨start', text'⟩ := describe_eq span'
  have bracket : ∀ v ∈ Severity.all, '(' ∉ "Severity: ".toList ++ v.name.toList ++ [')'] := by
    decide
  have blank {s : Span α} (plain : s.IsPlain) : ' ' ∉ s.format.toList :=
    plain.not_mem (by decide) (by decide) (by decide)
  rw [← String.toList_inj, text, text'] at same
  have heads := (eq_of_last (bracket _ known) (bracket _ known') same).1
  have places := eq_of_last (blank plain) (blank plain') (List.append_cancel_right heads)
  exact String.toList_inj.mp places.2

end Failure

end

theorem Failure.get?_span_toJson {f : Failure Float} {s : Span Float} (span : f.span? = some s) :
    f.toJson.get? "span" = some (.str s.format) := by
  unfold toJson Json.ofPresent Json.get?
  rw [span]
  cases f.details?.filter Json.truthy <;> rfl

/-! ## Places counted in doubles -/

namespace Position

/-- The position as a reader counts it, from one. -/
def shown {α : Type} [Coordinate α] (p : Position α) : Position α :=
  { p with line := p.line + 1, column := p.column + 1 }

/-- `p.Every P`: the line and the column have the property. -/
def Every (P : Int → Prop) (p : Position Int) : Prop := P p.line ∧ P p.column

instance (P : Int → Prop) [DecidablePred P] (p : Position Int) : Decidable (p.Every P) :=
  inferInstanceAs (Decidable (_ ∧ _))

end Position

namespace Span

def shown {α : Type} [Coordinate α] (s : Span α) : Span α := ⟨s.start.shown, s.stop.shown⟩

def Every (P : Int → Prop) (s : Span Int) : Prop := s.start.Every P ∧ s.stop.Every P

instance (P : Int → Prop) [DecidablePred P] (s : Span Int) : Decidable (s.Every P) :=
  inferInstanceAs (Decidable (_ ∧ _))

end Span

/-- The numbers that are written in plain digits. -/
def PlainNumber (n : Int) : Prop := n.natAbs < 10 ^ 21

/-- The numbers to which one can be added in doubles. -/
def CountableNumber (n : Int) : Prop := -2 ^ 53 ≤ n ∧ n < 2 ^ 53

instance : DecidablePred PlainNumber := fun n => inferInstanceAs (Decidable (n.natAbs < 10 ^ 21))

instance : DecidablePred CountableNumber := fun n =>
  inferInstanceAs (Decidable (-2 ^ 53 ≤ n ∧ n < 2 ^ 53))

/-- What is shown of a place is a place again, and the next one in both directions as long as one
can be added. -/
theorem Position.Stands.shown {a : Position Float} {p : Position Int} (stands : a.Stands p)
    (plain : p.Every PlainNumber) :
    ∃ r, a.shown.Stands r ∧ r.Every PlainNumber ∧
      (p.Every CountableNumber → r.SamePlace p.shown) := by
  obtain ⟨line, lineAt, linePlain, lineNext⟩ := stands.1.add_one plain.1
  obtain ⟨column, columnAt, columnPlain, columnNext⟩ := stands.2.add_one plain.2
  refine ⟨⟨line, column, 0⟩, ⟨lineAt, columnAt⟩, ⟨linePlain, columnPlain⟩, ?_⟩
  rintro ⟨⟨low, high⟩, low', high'⟩
  exact ⟨lineNext low high, columnNext low' high'⟩

theorem Span.Stands.shown {a : Span Float} {p : Span Int} (stands : a.Stands p)
    (plain : p.Every PlainNumber) :
    ∃ r, a.shown.Stands r ∧ r.Every PlainNumber ∧
      (p.Every CountableNumber → r.SamePlaces p.shown) := by
  obtain ⟨start, startAt, startPlain, startNext⟩ := stands.1.shown plain.1
  obtain ⟨stop, stopAt, stopPlain, stopNext⟩ := stands.2.shown plain.2
  exact ⟨⟨start, stop⟩, ⟨startAt, stopAt⟩, ⟨startPlain, stopPlain⟩,
    fun countable => ⟨startNext countable.1, stopNext countable.2⟩⟩

namespace Span

variable {p q r r' : Span Int}

theorem samePlaces_of_common (first : p.SamePlaces r) (second : q.SamePlaces r) :
    p.SamePlaces q := by
  obtain ⟨⟨startLine, startColumn⟩, stopLine, stopColumn⟩ := second
  unfold SamePlaces Position.SamePlace
  rw [startLine, startColumn, stopLine, stopColumn]
  exact first

theorem samePlaces_iff_shown (first : r.SamePlaces p.shown) (second : r'.SamePlaces q.shown) :
    r.SamePlaces r' ↔ p.SamePlaces q := by
  have next {p q : Position Int} {line column line' column' : Int}
      (first : line = p.shown.line ∧ column = p.shown.column)
      (second : line' = q.shown.line ∧ column' = q.shown.column) :
      line = line' ∧ column = column' ↔ p.SamePlace q := by
    rw [first.1, first.2, second.1, second.2]
    exact and_congr (Int.add_left_inj 1) (Int.add_left_inj 1)
  exact and_congr (next first.1 second.1) (next first.2 second.2)

end Span

/-- A place in doubles is one place in whole numbers. -/
theorem Span.Stands.stands_iff {a : Span Float} {p q : Span Int} (stands : a.Stands p) :
    a.Stands q ↔ p.SamePlaces q :=
  and_congr (and_congr stands.1.1.iff_eq stands.1.2.iff_eq)
    (and_congr stands.2.1.iff_eq stands.2.2.iff_eq)

/-- `a.WrittenAs t`: the digits of the location are those of `t`, which need not be the same place,
since only as many digits are written as are needed to tell doubles apart. -/
def Position.WrittenAs (a : Position Float) (t : Position Int) : Prop :=
  numberText (a.line + 1) = Coordinate.text (t.line + 1) ∧
    numberText (a.column + 1) = Coordinate.text (t.column + 1)

namespace Position

variable {a b : Position Float} {p q t u : Position Int}

theorem WrittenAs.format_eq (written : a.WrittenAs t) : a.format = t.format := by
  unfold format
  rw [← written.1, ← written.2]
  rfl

theorem Stands.exists_writtenAs (stands : a.shown.Stands p) (plain : p.Every PlainNumber) :
    ∃ t, a.WrittenAs t := by
  obtain ⟨line, lineText, -⟩ := exists_numberText_eq stands.1 plain.1
  obtain ⟨column, columnText, -⟩ := exists_numberText_eq stands.2 plain.2
  refine ⟨⟨line - 1, column - 1, 0⟩, lineText.trans ?_, columnText.trans ?_⟩
  · rw [Int.sub_add_cancel]
    rfl
  · rw [Int.sub_add_cancel]
    rfl

/-- The digits of two locations are the same if they show the same place. -/
theorem WrittenAs.samePlace_iff (written : a.WrittenAs t) (written' : b.WrittenAs u)
    (stands : a.shown.Stands p) (stands' : b.shown.Stands q) (plain : p.Every PlainNumber)
    (plain' : q.Every PlainNumber) : t.SamePlace u ↔ p.SamePlace q := by
  have lines := numberText_eq_iff stands.1 stands'.1 plain.1 plain'.1
  have columns := numberText_eq_iff stands.2 stands'.2 plain.2 plain'.2
  change numberText (a.line + 1) = numberText (b.line + 1) ↔ _ at lines
  change numberText (a.column + 1) = numberText (b.column + 1) ↔ _ at columns
  rw [written.1, written'.1, text_inj, Int.add_left_inj] at lines
  rw [written.2, written'.2, text_inj, Int.add_left_inj] at columns
  exact and_congr lines columns

end Position

namespace Span

variable {a b : Span Float} {p q : Span Int}

/-- `a.WrittenAs t`: the digits of the location are those of `t`. -/
def WrittenAs (a : Span Float) (t : Span Int) : Prop :=
  a.start.WrittenAs t.start ∧ a.stop.WrittenAs t.stop

theorem WrittenAs.format_eq {t : Span Int} (written : a.WrittenAs t) : a.format = t.format := by
  unfold format
  rw [written.1.format_eq, written.2.format_eq]

theorem Stands.exists_writtenAs (stands : a.shown.Stands p) (plain : p.Every PlainNumber) :
    ∃ t, a.WrittenAs t := by
  obtain ⟨start, startText⟩ := stands.1.exists_writtenAs plain.1
  obtain ⟨stop, stopText⟩ := stands.2.exists_writtenAs plain.2
  exact ⟨⟨start, stop⟩, startText, stopText⟩

theorem Stands.isPlain (stands : a.shown.Stands p) (plain : p.Every PlainNumber) : a.IsPlain := by
  obtain ⟨t, written⟩ := stands.exists_writtenAs plain
  exact ⟨t, written.format_eq⟩

/-- Locations are the same if they show the same places. -/
theorem Stands.format_eq_iff (stands : a.shown.Stands p) (stands' : b.shown.Stands q)
    (plain : p.Every PlainNumber) (plain' : q.Every PlainNumber) :
    a.format = b.format ↔ p.SamePlaces q := by
  obtain ⟨t, written⟩ := stands.exists_writtenAs plain
  obtain ⟨u, written'⟩ := stands'.exists_writtenAs plain'
  rw [written.format_eq, written'.format_eq, Span.format_eq_iff]
  exact and_congr (written.1.samePlace_iff written'.1 stands.1 stands'.1 plain.1 plain'.1)
    (written.2.samePlace_iff written'.2 stands.2 stands'.2 plain.2 plain'.2)

end Span

/-- In plain digits, two spans of doubles have the same location if the lines and columns shown,
which are counted on by one in doubles, are the same numbers. As long as one can be added, these are
the same only for the same lines and columns. The location can be read off a header, off the line
that describes a failure and off the failure as data, whatever else they say. -/
theorem locations_identify_places {a b : Span Float} {p q : Span Int} (first : a.Stands p)
    (second : b.Stands q) (plain : p.Every PlainNumber) (plain' : q.Every PlainNumber) :
    (a.format = b.format ↔ ∃ r, a.shown.Stands r ∧ b.shown.Stands r) ∧
    (p.Every CountableNumber → q.Every CountableNumber →
      (a.format = b.format ↔ p.SamePlaces q)) ∧
    (∀ (d d' : Diagnostic) (paints : Bool),
      Diagnostic.header ⟨a, d⟩ paints = Diagnostic.header ⟨b, d'⟩ paints → a.format = b.format) ∧
    (∀ f f' : Failure Float, f.span? = some a → f'.span? = some b →
      (f.severity ∈ Severity.all → f'.severity ∈ Severity.all → f.describe = f'.describe →
        a.format = b.format) ∧
      (f.toJson.get? "span" = f'.toJson.get? "span" ↔ a.format = b.format)) := by
  obtain ⟨r, stands, shownPlain, next⟩ := first.shown plain
  obtain ⟨r', stands', shownPlain', next'⟩ := second.shown plain'
  have places := stands.format_eq_iff stands' shownPlain shownPlain'
  have isPlain := stands.isPlain shownPlain
  have isPlain' := stands'.isPlain shownPlain'
  refine ⟨?_, ?_, fun d d' paints => Diagnostic.format_eq_of_header isPlain isPlain', ?_⟩
  · rw [places]
    constructor
    · intro same
      exact ⟨r', stands.stands_iff.mpr same, stands'⟩
    · rintro ⟨t, shows, shows'⟩
      exact Span.samePlaces_of_common (stands.stands_iff.mp shows) (stands'.stands_iff.mp shows')
  · intro countable countable'
    rw [places]
    exact Span.samePlaces_iff_shown (next countable) (next' countable')
  · intro f f' span span'
    refine ⟨Failure.format_eq_of_describe isPlain isPlain' span span', ?_⟩
    rw [Failure.get?_span_toJson span, Failure.get?_span_toJson span', Option.some_inj,
      Json.str.injEq]

/-- From the lowest line to which one can be added down to the highest. -/
def farSpan : Span Float :=
  ⟨⟨-9007199254740992, -1, 0⟩, ⟨9007199254740991, 4, 0⟩⟩

/-- The same with another column at its end, and other offsets. -/
def widerSpan : Span Float :=
  ⟨⟨-9007199254740992, -1, 7⟩, ⟨9007199254740991, 5, 8⟩⟩

/-- The two are told apart, in a text and in any two headers. -/
theorem farSpan_told_apart :
    farSpan.Stands ⟨⟨-9007199254740992, -1, 0⟩, ⟨9007199254740991, 4, 0⟩⟩ ∧
    widerSpan.Stands ⟨⟨-9007199254740992, -1, 0⟩, ⟨9007199254740991, 5, 0⟩⟩ ∧
    farSpan.format = "-9007199254740991:0-9007199254740992:5" ∧ farSpan.format ≠ widerSpan.format ∧
    ∀ (d d' : Diagnostic) (paints : Bool),
      Diagnostic.header ⟨farSpan, d⟩ paints ≠ Diagnostic.header ⟨widerSpan, d'⟩ paints := by
  have first : farSpan.Stands ⟨⟨-9007199254740992, -1, 0⟩, ⟨9007199254740991, 4, 0⟩⟩ := by
    decide +kernel
  have second : widerSpan.Stands ⟨⟨-9007199254740992, -1, 0⟩, ⟨9007199254740991, 5, 0⟩⟩ := by
    decide +kernel
  obtain ⟨-, exactly, headers, -⟩ :=
    locations_identify_places first second (by decide) (by decide)
  have apart : farSpan.format ≠ widerSpan.format := by
    intro same
    exact absurd ((exactly (by decide) (by decide)).mp same).2.2 (by decide)
  exact ⟨first, second, by decide +kernel, apart, fun d d' paints same =>
    apart (headers d d' paints same)⟩

/-- Four columns of a line, counted in doubles. -/
def lineSpan (line : Float) : Span Float := ⟨⟨line, 0, 0⟩, ⟨line, 4, 4⟩⟩

/-- The same counted exactly. -/
def exactLineSpan (line : Int) : Span Int := ⟨⟨line, 0, 0⟩, ⟨line, 4, 4⟩⟩

/-- One can be added to the first of these lines and not to the second. Both are written in plain
digits and are shown as the same line. -/
theorem uncountableLine_shown_alike :
    (lineSpan 9007199254740991).Stands (exactLineSpan 9007199254740991) ∧
    (lineSpan 9007199254740992).Stands (exactLineSpan 9007199254740992) ∧
    (exactLineSpan 9007199254740991).Every PlainNumber ∧
    (exactLineSpan 9007199254740992).Every PlainNumber ∧
    (lineSpan 9007199254740991).format = (lineSpan 9007199254740992).format ∧
    ¬ (exactLineSpan 9007199254740991).SamePlaces (exactLineSpan 9007199254740992) := by
  refine ⟨by decide +kernel, by decide +kernel, by decide, by decide, by decide +kernel, ?_⟩
  intro same
  exact absurd same.1.1 (by decide)

end Folio
