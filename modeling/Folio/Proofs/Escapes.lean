import Folio.Paint
import Folio.Proofs.Lines
import Mathlib.Data.List.Infix
import Mathlib.Data.List.TakeWhile

/-!
# Escape sequences in texts

Texts may come with escape sequences of their own, whole ones and beginnings. What a terminal does
not show of a painted text is found by deleting every whole sequence, from left to right.

1. `Paint.escapeLength_pos_iff`: where a sequence stands.
2. `Paint.unpaintChars_append`: texts can be unpainted piece by piece, as long as no piece goes on
   with a sequence that the one before it began.
3. `Paint.unpaintChars_eq_self_iff`: a text that stays as it is.
4. `Paint.paint_eq`: paint on a text of one line without escapes.
-/

namespace Folio.Paint

open Text

/-! ## Sequences -/

/-- `IsEscape s`: the text is one escape sequence with a number. -/
def IsEscape (s : List Char) : Prop :=
  ∃ digits : List Char, digits ≠ [] ∧ (∀ c ∈ digits, c.isDigit = true) ∧
    s = '\x1b' :: '[' :: (digits ++ ['m'])

/-- The length of the escape sequence at the front of a text, or zero if there is none. -/
def escapeLength : List Char → Nat
  | '\x1b' :: '[' :: rest =>
    let digits := rest.takeWhile Char.isDigit
    if digits ≠ [] ∧ (rest.dropWhile Char.isDigit).head? = some 'm' then digits.length + 3 else 0
  | _ => 0

/-- `Continues c`: the character can stand in a sequence behind its start. -/
def Continues (c : Char) : Prop := c = '[' ∨ c.isDigit = true ∨ c = 'm'

instance (c : Char) : Decidable (Continues c) :=
  inferInstanceAs (Decidable (c = '[' ∨ c.isDigit = true ∨ c = 'm'))

theorem IsEscape.starts {e : List Char} (escape : IsEscape e) :
    ∃ rest, e = '\x1b' :: rest ∧ ∀ c ∈ rest, Continues c := by
  obtain ⟨digits, _, allDigits, rfl⟩ := escape
  refine ⟨_, rfl, fun c member => ?_⟩
  rw [List.mem_cons, List.mem_append, List.mem_singleton] at member
  rcases member with bracket | digit | last
  · exact .inl bracket
  · exact .inr (.inl (allDigits c digit))
  · exact .inr (.inr last)

theorem escapeLength_append {e : List Char} (escape : IsEscape e) (rest : List Char) :
    escapeLength (e ++ rest) = e.length := by
  obtain ⟨digits, some, allDigits, rfl⟩ := escape
  have taken : (digits ++ 'm' :: rest).takeWhile Char.isDigit = digits := by
    rw [List.takeWhile_append_of_pos allDigits, List.takeWhile_cons_of_neg (by decide),
      List.append_nil]
  have dropped : (digits ++ 'm' :: rest).dropWhile Char.isDigit = 'm' :: rest := by
    rw [List.dropWhile_append_of_pos allDigits, List.dropWhile_cons_of_neg (by decide)]
  have written : '\x1b' :: '[' :: (digits ++ ['m']) ++ rest =
      '\x1b' :: '[' :: (digits ++ 'm' :: rest) := by simp
  rw [written]
  unfold escapeLength
  simp only [taken, dropped]
  rw [if_pos ⟨some, rfl⟩]
  simp

/-- A text has an escape sequence at its front exactly if the length found there is not zero. -/
theorem escapeLength_pos_iff {s : List Char} :
    0 < escapeLength s ↔ ∃ e rest, IsEscape e ∧ s = e ++ rest := by
  constructor
  · intro positive
    unfold escapeLength at positive
    split at positive
    next rest =>
      simp only at positive
      split at positive
      next found =>
        obtain ⟨some, last⟩ := found
        obtain ⟨later, ends⟩ := List.head?_eq_some_iff.mp last
        refine ⟨'\x1b' :: '[' :: (rest.takeWhile Char.isDigit ++ ['m']), later,
          ⟨_, some, fun c => List.mem_takeWhile_imp, rfl⟩, ?_⟩
        have whole : rest = rest.takeWhile Char.isDigit ++ 'm' :: later := by
          rw [← ends, List.takeWhile_append_dropWhile]
        simpa using whole
      next => cases positive
    next => cases positive
  · rintro ⟨e, rest, escape, rfl⟩
    rw [escapeLength_append escape]
    obtain ⟨tail, rfl, _⟩ := escape.starts
    exact Nat.succ_pos _

theorem escapeLength_cons_of_ne {c : Char} (other : c ≠ '\x1b') (rest : List Char) :
    escapeLength (c :: rest) = 0 := by
  by_contra positive
  obtain ⟨e, later, escape, split⟩ := escapeLength_pos_iff.mp (Nat.pos_of_ne_zero positive)
  obtain ⟨tail, rfl, _⟩ := escape.starts
  exact other (List.cons.inj split).1

/-- Nothing behind a text makes a sequence at its front, unless it goes on with one. -/
theorem escapeLength_cons_append {c : Char} {s t : List Char}
    (apart : ∀ d, t.head? = some d → ¬ Continues d) (none : escapeLength (c :: s) = 0) :
    escapeLength (c :: s ++ t) = 0 := by
  by_contra positive
  obtain ⟨e, rest, escape, split⟩ := escapeLength_pos_iff.mp (Nat.pos_of_ne_zero positive)
  rcases List.append_eq_append_iff.mp split with ⟨more, rfl, behind⟩ | ⟨more, within, _⟩
  · -- The sequence reaches into `t`, whose first character then is one of its own.
    cases more with
    | nil =>
      refine absurd (escapeLength_pos_iff.mpr ⟨_, [], escape, rfl⟩) ?_
      simp [none]
    | cons d more =>
      obtain ⟨tail, same, continues⟩ := escape.starts
      cases same
      exact apart d (by simp [behind]) (continues d (by simp))
  · refine absurd (escapeLength_pos_iff.mpr ⟨e, more, escape, within⟩) ?_
    simp [none]

/-- Every text is gone through sequence by sequence, and character by character where there is
none. -/
theorem escapeInduction {P : List Char → Prop} (nil : P [])
    (escape : ∀ e rest, IsEscape e → P rest → P (e ++ rest))
    (other : ∀ c rest, escapeLength (c :: rest) = 0 → P rest → P (c :: rest)) (s : List Char) :
    P s := by
  induction h : s.length using Nat.strong_induction_on generalizing s with
  | _ n ih =>
    cases s with
    | nil => exact nil
    | cons c rest =>
      rcases Nat.eq_zero_or_pos (escapeLength (c :: rest)) with none | positive
      · exact other c rest none (ih rest.length (by simp [← h]) rest rfl)
      · obtain ⟨e, later, found, split⟩ := escapeLength_pos_iff.mp positive
        rw [split] at h ⊢
        obtain ⟨tail, rfl, _⟩ := found.starts
        have shorter : later.length < n := by
          rw [← h, List.length_append, List.length_cons]
          omega
        exact escape _ later found (ih later.length shorter later rfl)

/-! ## Deleting them -/

/-- Deletes every escape sequence, from the left, after leaving out `skip` characters. -/
def unpaintChars : Nat → List Char → List Char
  | _, [] => []
  | skip + 1, _ :: rest => unpaintChars skip rest
  | 0, c :: rest =>
    if escapeLength (c :: rest) = 0 then c :: unpaintChars 0 rest
    else unpaintChars (escapeLength (c :: rest) - 1) rest

/-- The text without its escape sequences. -/
def unpaint (s : String) : String := String.ofList (unpaintChars 0 s.toList)

theorem unpaintChars_eq_drop (skip : Nat) (s : List Char) :
    unpaintChars skip s = unpaintChars 0 (s.drop skip) := by
  induction skip generalizing s with
  | zero => rfl
  | succ skip ih =>
    cases s with
    | nil => rfl
    | cons c rest => exact ih rest

theorem unpaintChars_escape {e : List Char} (escape : IsEscape e) (rest : List Char) :
    unpaintChars 0 (e ++ rest) = unpaintChars 0 rest := by
  have length := escapeLength_append escape rest
  obtain ⟨tail, rfl, _⟩ := escape.starts
  rw [List.cons_append] at length ⊢
  rw [unpaintChars, length, if_neg (by simp), unpaintChars_eq_drop]
  simp

theorem unpaintChars_cons {c : Char} {rest : List Char} (none : escapeLength (c :: rest) = 0) :
    unpaintChars 0 (c :: rest) = c :: unpaintChars 0 rest := by
  rw [unpaintChars, if_pos none]

/-- Two texts are unpainted one by one, unless the second goes on with a sequence of the first. -/
theorem unpaintChars_append {s t : List Char} (apart : ∀ d, t.head? = some d → ¬ Continues d) :
    unpaintChars 0 (s ++ t) = unpaintChars 0 s ++ unpaintChars 0 t := by
  induction s using escapeInduction with
  | nil => rfl
  | escape e rest found ih =>
    rw [List.append_assoc, unpaintChars_escape found, unpaintChars_escape found, ih]
  | other c rest none ih =>
    have still := escapeLength_cons_append apart none
    rw [List.cons_append] at still ⊢
    rw [unpaintChars_cons still, ih, unpaintChars_cons none, List.cons_append]

theorem length_unpaintChars_le (s : List Char) : (unpaintChars 0 s).length ≤ s.length := by
  induction s using escapeInduction with
  | nil => exact Nat.le_refl 0
  | escape e rest found ih =>
    rw [unpaintChars_escape found, List.length_append]
    exact Nat.le_add_left_of_le ih
  | other c rest none ih =>
    rw [unpaintChars_cons none]
    exact Nat.succ_le_succ ih

/-- Exactly the texts without a whole sequence stay as they are. -/
theorem unpaintChars_eq_self_iff {s : List Char} :
    unpaintChars 0 s = s ↔ ∀ e, IsEscape e → ¬ e <:+: s := by
  induction s using escapeInduction with
  | nil =>
    refine iff_of_true rfl fun e escape inside => ?_
    obtain ⟨tail, rfl, _⟩ := escape.starts
    cases List.infix_nil.mp inside
  | escape e rest found ih =>
    refine iff_of_false (fun same => ?_) fun free =>
      free e found (List.prefix_append e rest).isInfix
    have shorter := length_unpaintChars_le rest
    rw [← unpaintChars_escape found rest, same] at shorter
    obtain ⟨tail, rfl, _⟩ := found.starts
    simp only [List.length_append, List.length_cons] at shorter
    omega
  | other c rest none ih =>
    rw [unpaintChars_cons none, List.cons.injEq, ih]
    refine ⟨fun free e escape inside => ?_, fun free => ⟨rfl, fun e escape inside => ?_⟩⟩
    · rcases List.infix_cons_iff.mp inside with ⟨later, atFront⟩ | further
      · have positive := escapeLength_pos_iff.mpr ⟨e, later, escape, atFront.symm⟩
        exact absurd none (Nat.pos_iff_ne_zero.mp positive)
      · exact free.2 e escape further
    · exact free e escape (List.infix_cons inside)

/-- `EscapeFree s`: no part of the text is an escape sequence. -/
def EscapeFree (s : String) : Prop := ∀ e, IsEscape e → ¬ e <:+: s.toList

instance (s : String) : Decidable (EscapeFree s) := decidable_of_iff _ unpaintChars_eq_self_iff

theorem unpaint_eq_self_iff {s : String} : unpaint s = s ↔ EscapeFree s := by
  unfold EscapeFree
  rw [← unpaintChars_eq_self_iff, unpaint, ← String.toList_inj, String.toList_ofList]

/-! ## Pieces of a text -/

theorem unpaint_append {s t : String} (apart : ∀ d, t.toList.head? = some d → ¬ Continues d) :
    unpaint (s ++ t) = unpaint s ++ unpaint t := by
  unfold unpaint
  rw [String.toList_append, unpaintChars_append apart, String.ofList_append]

/-- What has no escape character stays in front of the rest. -/
theorem unpaint_plain_append {s : String} (plain : '\x1b' ∉ s.toList) (t : String) :
    unpaint (s ++ t) = s ++ unpaint t := by
  have pass : ∀ chars : List Char, '\x1b' ∉ chars →
      unpaintChars 0 (chars ++ t.toList) = chars ++ unpaintChars 0 t.toList := by
    intro chars none
    induction chars with
    | nil => rfl
    | cons c rest ih =>
      rw [List.mem_cons, not_or] at none
      rw [List.cons_append, unpaintChars_cons (escapeLength_cons_of_ne (Ne.symm none.1) _),
        ih none.2, List.cons_append]
  unfold unpaint
  rw [String.toList_append, pass _ plain, String.ofList_append, String.ofList_toList]

/-- Whatever cannot stand in a sequence keeps the texts around it apart. -/
theorem unpaint_append_between {between : String} {c : Char} (only : between.toList = [c])
    (breaks : ¬ Continues c) (other : c ≠ '\x1b') (s t : String) :
    unpaint (s ++ (between ++ t)) = unpaint s ++ (between ++ unpaint t) := by
  have apart : ∀ d, (between ++ t).toList.head? = some d → ¬ Continues d := by
    intro d first
    rw [String.toList_append, only] at first
    cases first
    exact breaks
  have plain : '\x1b' ∉ between.toList := by
    rw [only, List.mem_singleton]
    exact Ne.symm other
  rw [unpaint_append apart, unpaint_plain_append plain]

theorem isEscape_escape (code : Nat) : IsEscape (escape code).toList := by
  have digits : (toString code).toList = Nat.toDigits 10 code := by
    show (Nat.repr code).toList = _
    rw [Nat.repr_eq_ofList_toDigits, String.toList_ofList]
  refine ⟨Nat.toDigits 10 code, Nat.toDigits_ne_nil, fun c member => ?_, ?_⟩
  · exact Nat.isDigit_of_mem_toDigits (by decide) (by decide) member
  · unfold escape
    rw [String.toList_append, String.toList_append, digits]
    rfl

theorem unpaint_escapes_append (codes : List Nat) (s : String) :
    unpaint (String.join (codes.map escape) ++ s) = unpaint s := by
  induction codes with
  | nil => simp
  | cons code codes ih =>
    have first : ∀ t, unpaint (escape code ++ t) = unpaint t := by
      intro t
      unfold unpaint
      rw [String.toList_append, unpaintChars_escape (isEscape_escape code)]
    rw [List.map_cons, String.join_cons, String.append_assoc, first, ih]

/-! ## Paint -/

theorem replaceChars_of_not_mem {c : Char} {pattern new s : List Char} (none : c ∉ s) :
    replaceChars (c :: pattern) new 0 s = s := by
  induction s with
  | nil => rfl
  | cons d rest ih =>
    rw [List.mem_cons, not_or] at none
    have differs : (c :: pattern).isPrefixOf (d :: rest) = false := by
      simp [List.isPrefixOf, none.1]
    rw [replaceChars, differs, ih none.2]
    rfl

theorem aroundLineEnds_of_not_mem {opening closing s : List Char} (none : '\n' ∉ s) :
    aroundLineEnds opening closing s = s := by
  fun_induction aroundLineEnds opening closing s with
  | case1 => rfl
  | case2 rest ih => simp at none
  | case3 rest ih => simp at none
  | case4 c rest _ _ ih =>
    rw [List.mem_cons, not_or] at none
    rw [ih none.2]

/-- What switches the styles on. -/
def opening (styles : List Style) : String := String.join ((styles.map (·.on)).map escape)

/-- What switches them off again, the innermost first. -/
def closing (styles : List Style) : String := String.join ((styles.reverse.map (·.off)).map escape)

/-- A text of one line without escapes is painted by what is put around it. -/
theorem paint_eq {s : String} (styles : List Style) (some : s ≠ "") (oneLine : OneLine s)
    (plain : '\x1b' ∉ s.toList) : paint styles s = opening styles ++ s ++ closing styles := by
  have reopened : ∀ style, reopen s style = s := by
    intro style
    obtain ⟨tail, start, _⟩ := (isEscape_escape style.off).starts
    unfold reopen Text.replace
    rw [start, replaceChars_of_not_mem plain, String.ofList_toList]
  have kept : ∀ styles : List Style, styles.foldl reopen s = s := by
    intro styles
    induction styles with
    | nil => rfl
    | cons style rest ih => rw [List.foldl_cons, reopened, ih]
  unfold paint
  rw [if_neg (by simpa using some)]
  simp only [kept, aroundLineEnds_of_not_mem oneLine, String.ofList_toList, opening, closing,
    List.map_map]
  rfl

theorem units_le_units_paint {s : String} (styles : List Style) (oneLine : OneLine s)
    (plain : '\x1b' ∉ s.toList) : units s ≤ units (paint styles s) := by
  by_cases empty : s = ""
  · rw [empty]
    exact Nat.zero_le _
  · rw [paint_eq styles empty oneLine plain, units_append, units_append]
    omega

/-- Unpainting leaves of such a text what was painted. -/
theorem unpaint_paint_append {s : String} (styles : List Style) (oneLine : OneLine s)
    (plain : '\x1b' ∉ s.toList) (t : String) : unpaint (paint styles s ++ t) = s ++ unpaint t := by
  by_cases empty : s = ""
  · rw [empty]
    simp [paint]
  · rw [paint_eq styles empty oneLine plain, String.append_assoc, String.append_assoc, opening,
      unpaint_escapes_append, unpaint_plain_append plain, closing, unpaint_escapes_append]

end Folio.Paint
