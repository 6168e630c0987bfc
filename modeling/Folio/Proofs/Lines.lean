import Folio.Coordinate
import Folio.Text
import Mathlib.Data.List.Forall2

/-!
# Texts line by line and unit by unit

1. `Text.not_mem_text`: the characters that numbers are written without.
2. `Text.lines_unlines`: texts of one line each, put together and taken apart again.
3. `Text.unlines_flatten`: blocks of lines, put together one by one or all at once.
4. `Text.oneLine_of_mem_lines`, `Text.infix_of_mem_lines`: the lines of a text are of one line and
   stand in it as they are.
5. `Text.unitValues_append`, `Text.length_unitValues`: units go through a text from left to right,
   and the length of a text is their number.
-/

namespace Folio.Text

/-! ## Characters that a text does without -/

theorem not_mem_append {c : Char} {s t : String} (first : c ∉ s.toList) (second : c ∉ t.toList) :
    c ∉ (s ++ t).toList := by
  rw [String.toList_append, List.mem_append]
  rintro (inFirst | inSecond)
  · exact first inFirst
  · exact second inSecond

theorem not_mem_copies {c d : Char} (n : Nat) (other : d ≠ c) : c ∉ (copies n d).toList := by
  unfold copies
  rw [String.toList_ofList, List.mem_replicate]
  exact fun member => other member.2.symm

theorem isDigit_of_mem_repr {n : Nat} {c : Char} (member : c ∈ n.repr.toList) :
    c.isDigit = true := by
  unfold Nat.repr at member
  rw [String.toList_ofList] at member
  exact Nat.isDigit_of_mem_toDigits (by decide) (by decide) member

/-- Numbers are written with digits and a sign. -/
theorem isDigit_or_of_mem_text {n : Int} {c : Char} (member : c ∈ (Coordinate.text n).toList) :
    c.isDigit = true ∨ c = '-' := by
  have written : Coordinate.text n = if 0 ≤ n then n.toNat.repr else "-" ++ (-n).toNat.repr :=
    Int.toString_eq_repr.trans Int.repr_eq_if
  rw [written] at member
  split at member
  · exact .inl (isDigit_of_mem_repr member)
  · rw [String.toList_append, List.mem_append] at member
    rcases member with sign | digit
    · exact .inr (List.mem_singleton.mp sign)
    · exact .inl (isDigit_of_mem_repr digit)

theorem not_mem_text {c : Char} (digit : c.isDigit = false) (sign : c ≠ '-') (n : Int) :
    c ∉ (Coordinate.text n).toList := by
  intro member
  rcases isDigit_or_of_mem_text member with found | same
  · rw [digit] at found
    cases found
  · exact sign same

/-! ## Lines -/

/-- `OneLine s`: nothing in the text ends a line. -/
def OneLine (s : String) : Prop := '\n' ∉ s.toList

instance (s : String) : Decidable (OneLine s) := inferInstanceAs (Decidable ('\n' ∉ s.toList))

theorem OneLine.append {s t : String} (first : OneLine s) (second : OneLine t) :
    OneLine (s ++ t) :=
  not_mem_append first second

theorem oneLine_copies {c : Char} (n : Nat) (other : c ≠ '\n') : OneLine (copies n c) :=
  not_mem_copies n other

theorem oneLine_padLeft {s : String} (width : Nat) (plain : OneLine s) :
    OneLine (padLeft width s) :=
  (oneLine_copies _ (by decide)).append plain

/-- Numbers are written on one line. -/
theorem oneLine_text (n : Int) : OneLine (Coordinate.text n) :=
  not_mem_text (by decide) (by decide) n

theorem splitLines_eq_splitOn (s : List Char) : splitLines s = s.splitOn '\n' := by
  induction s with
  | nil => rfl
  | cons c rest ih =>
    rw [splitLines, ih, List.splitOn, List.splitOn, List.splitOnP_cons_eq_if_modifyHead]
    by_cases ends : c = '\n'
    · simp [ends]
    · rw [if_neg ends, if_neg (by simpa using ends)]
      cases split : rest.splitOnP (· == '\n') with
      | nil => exact absurd split (List.splitOnP_ne_nil _ _)
      | cons line later => rfl

theorem lines_unlines {parts : List String} (some : parts ≠ []) (plain : ∀ s ∈ parts, OneLine s) :
    lines (unlines parts) = parts := by
  have apart : splitLines (unlines parts).toList = parts.map String.toList := by
    rw [splitLines_eq_splitOn, unlines, String.toList_intercalate]
    refine List.splitOn_intercalate '\n' ?_ (by simpa using some)
    intro line member
    obtain ⟨s, held, rfl⟩ := List.mem_map.mp member
    exact plain s held
  rw [lines, apart, List.map_map]
  simp

theorem lines_append_newline (s t : String) : lines (s ++ "\n" ++ t) = lines s ++ lines t := by
  have apart : (s ++ "\n" ++ t).toList = s.toList ++ '\n' :: t.toList := by
    rw [String.toList_append, String.toList_append, List.append_assoc]
    rfl
  unfold lines
  rw [apart, splitLines_eq_splitOn, List.splitOn_append_cons_self, List.map_append,
    splitLines_eq_splitOn, splitLines_eq_splitOn]

theorem unlines_singleton (s : String) : unlines [s] = s := String.intercalate_singleton

theorem unlines_cons_cons (s t : String) (rest : List String) :
    unlines (s :: t :: rest) = s ++ "\n" ++ unlines (t :: rest) :=
  String.intercalate_cons_cons

theorem unlines_pair (s t : String) : unlines [s, t] = s ++ "\n" ++ t := by
  rw [unlines_cons_cons, unlines_singleton]

theorem unlines_append {parts more : List String} (some : parts ≠ []) (some' : more ≠ []) :
    unlines (parts ++ more) = unlines [unlines parts, unlines more] := by
  rw [unlines_pair]
  exact String.intercalate_append_of_ne_nil some some'

/-- It makes no difference whether the lines of each block are put together first. -/
theorem unlines_flatten {blocks : List (List String)} (filled : ∀ block ∈ blocks, block ≠ []) :
    unlines (blocks.map unlines) = unlines blocks.flatten := by
  induction blocks with
  | nil => rfl
  | cons block rest ih =>
    rw [List.forall_mem_cons] at filled
    cases rest with
    | nil => simp [unlines_singleton]
    | cons next rest =>
      have more : (next :: rest).flatten ≠ [] := by
        simp [filled.2 next (by simp)]
      rw [List.flatten_cons, unlines_append filled.1 more, ← ih filled.2, unlines_pair]
      exact unlines_cons_cons _ _ _

theorem newline_not_mem_of_mem_splitLines {s line : List Char} (member : line ∈ splitLines s) :
    '\n' ∉ line := by
  induction s generalizing line with
  | nil =>
    rw [splitLines, List.mem_singleton] at member
    simp [member]
  | cons c rest ih =>
    rw [splitLines] at member
    split at member
    · rcases List.mem_cons.mp member with rfl | later
      · simp
      · exact ih later
    next other =>
      split at member
      next =>
        rw [List.mem_singleton.mp member, List.mem_singleton]
        exact Ne.symm other
      next first later split =>
        rw [split] at ih
        rcases List.mem_cons.mp member with rfl | behind
        · rw [List.mem_cons]
          rintro (same | inside)
          · exact other same.symm
          · exact ih List.mem_cons_self inside
        · exact ih (List.mem_cons_of_mem _ behind)

theorem oneLine_of_mem_lines {s line : String} (member : line ∈ lines s) : OneLine line := by
  obtain ⟨chars, held, rfl⟩ := List.mem_map.mp member
  unfold OneLine
  rw [String.toList_ofList]
  exact newline_not_mem_of_mem_splitLines held

/-- The lines of a text are parts of it, and the first one stands at its front. -/
theorem infix_of_mem_splitLines (s : List Char) :
    (∀ line ∈ splitLines s, line <:+: s) ∧
    ∀ line, (splitLines s).head? = some line → line <+: s := by
  induction s with
  | nil => simp [splitLines]
  | cons c rest ih =>
    obtain ⟨inside, atFront⟩ := ih
    rw [splitLines]
    split
    · refine ⟨fun line member => ?_, fun line first => ?_⟩
      · rcases List.mem_cons.mp member with rfl | later
        · exact List.nil_infix
        · exact List.infix_cons (inside line later)
      · cases first
        exact List.nil_prefix
    · cases split : splitLines rest with
      | nil =>
        have alone : [c] <+: c :: rest := List.prefix_append [c] rest
        simpa using alone.isInfix
      | cons first later =>
        have own : c :: first <+: c :: rest :=
          List.cons_prefix_cons.mpr ⟨rfl, atFront first (by rw [split]; rfl)⟩
        refine ⟨fun line member => ?_, fun line same => ?_⟩
        · rcases List.mem_cons.mp member with rfl | behind
          · exact own.isInfix
          · exact List.infix_cons (inside line (by rw [split]; exact .tail _ behind))
        · cases same
          exact own

theorem infix_of_mem_lines {s line : String} (member : line ∈ lines s) :
    line.toList <:+: s.toList := by
  obtain ⟨chars, held, rfl⟩ := List.mem_map.mp member
  rw [String.toList_ofList]
  exact (infix_of_mem_splitLines s.toList).1 chars held

/-! ## Units -/

theorem listUnits_append (s t : List Char) : listUnits (s ++ t) = listUnits s + listUnits t := by
  induction s with
  | nil => simp [listUnits]
  | cons c rest ih => simp only [List.cons_append, listUnits, ih, Nat.add_assoc]

theorem units_append (s t : String) : units (s ++ t) = units s + units t := by
  rw [units, String.toList_append, listUnits_append]
  rfl

theorem unitValues_append (s t : List Char) :
    unitValues (s ++ t) = unitValues s ++ unitValues t := by
  induction s with
  | nil => rfl
  | cons c rest ih =>
    simp only [List.cons_append, unitValues, ih]
    split <;> rfl

theorem length_unitValues (s : List Char) : (unitValues s).length = listUnits s := by
  induction s with
  | nil => rfl
  | cons c rest ih =>
    simp only [unitValues, listUnits, charUnits]
    split
    · rw [List.length_cons, ih, Nat.add_comm]
    · rw [List.length_cons, List.length_cons, ih, Nat.add_comm 2]

theorem unitValues_replicate {c : Char} (n : Nat) (small : c.toNat < 0x10000) :
    unitValues (List.replicate n c) = List.replicate n c.toNat := by
  induction n with
  | zero => rfl
  | succ n ih => rw [List.replicate_succ, List.replicate_succ, unitValues, if_pos small, ih]

theorem units_copies {c : Char} (n : Nat) (small : c.toNat < 0x10000) : units (copies n c) = n := by
  rw [units, copies, String.toList_ofList, ← length_unitValues, unitValues_replicate n small,
    List.length_replicate]

/-- A text of several lines is as long as they are, with one unit for each line end between them. -/
theorem units_unlines_cons_cons (first next : String) (rest : List String) :
    units (unlines (first :: next :: rest)) = units first + 1 + units (unlines (next :: rest)) := by
  have feed : units "\n" = 1 := by decide
  rw [unlines_cons_cons, units_append, units_append, feed]

theorem units_unlines_le {parts more : List String}
    (each : List.Forall₂ (fun part part' => units part ≤ units part') parts more) :
    units (unlines parts) ≤ units (unlines more) := by
  induction each with
  | nil => exact Nat.le_refl _
  | cons first later ih =>
    cases later with
    | nil =>
      rw [unlines_singleton, unlines_singleton]
      exact first
    | cons =>
      rw [units_unlines_cons_cons, units_unlines_cons_cons]
      exact Nat.add_le_add (Nat.add_le_add_right first 1) ih

theorem units_le_units_unlines {parts : List String} {part : String} (member : part ∈ parts) :
    units part ≤ units (unlines parts) := by
  induction parts with
  | nil => cases member
  | cons first rest ih =>
    cases rest with
    | nil =>
      obtain rfl := List.mem_singleton.mp member
      exact Nat.le_of_eq (congrArg units (unlines_singleton part).symm)
    | cons next rest =>
      rw [units_unlines_cons_cons]
      rcases List.mem_cons.mp member with rfl | later
      · omega
      · exact Nat.le_add_left_of_le (ih later)

end Folio.Text
