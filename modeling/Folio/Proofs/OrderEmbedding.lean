import Folio.Failure
import Folio.Proofs.PositionOrder

/-!
# Translations embed the order

Columns move on the first line only, and yet a translation keeps every comparison: two positions
on one line both move or both stay, and on different lines columns do not count. So whatever is
decided by comparing positions comes out the same before and after a translation.

1. `Span.create_map`, `Span.merge_map`, `Decoration.sortByStart_map`: the operations that compare,
   under any change of positions that keeps comparisons.
2. `translation_embeds_order`: the same for translations.
-/

namespace Folio

/-! ## Changes that keep comparisons -/

/-- `KeepsOrder move`: positions compare as they did before they were moved. -/
def Position.KeepsOrder {α : Type} [Coordinate α] (move : Position α → Position α) : Prop :=
  ∀ p q, (move p).compare (move q) = p.compare q

/-- Changes both ends of a span. -/
def Span.map {α : Type} (move : Position α → Position α) (s : Span α) : Span α :=
  ⟨move s.start, move s.stop⟩

section

variable {α : Type} [Coordinate α] {move : Position α → Position α}

theorem Span.create_map (keeps : Position.KeepsOrder move) (start stop : Position α) :
    Span.create (move start) (move stop) = (Span.create start stop).map (Span.map move) := by
  unfold Span.create
  rw [keeps start stop]
  split
  · rfl
  · rfl

/-- A span is refused after the move exactly if it was refused before. -/
theorem Span.createOrFail_map (keeps : Position.KeepsOrder move) (start stop : Position α) :
    (∃ failure, Span.createOrFail (move start) (move stop) = .error failure) ↔
      ∃ failure, Span.createOrFail start stop = .error failure := by
  unfold Span.createOrFail
  rw [Span.create_map keeps]
  cases Span.create start stop with
  | none => exact iff_of_true ⟨_, rfl⟩ ⟨_, rfl⟩
  | some span =>
    refine iff_of_false ?_ ?_
    · rintro ⟨failure, made⟩
      cases made
    · rintro ⟨failure, made⟩
      cases made

/-- Of two starts or two ends the same one is taken, also where they tie. -/
theorem Span.merge_map (keeps : Position.KeepsOrder move) (a b : Span α) :
    (a.merge b).map move = (a.map move).merge (b.map move) := by
  show Span.mk (move (a.merge b).start) (move (a.merge b).stop) = _
  simp only [Span.merge, Span.map, keeps a.start b.start, keeps a.stop b.stop]
  congr 1
  · split <;> rfl
  · split <;> rfl

end

/-! ## Sorting -/

/-- Whole numbers all have a place in the order, so decorations are sorted by merging. -/
theorem Decoration.sortByStart_eq (items : List (Spanned Int Decoration)) :
    Decoration.sortByStart items =
      items.mergeSort fun a b => decide (a.span.start ≤ b.span.start) := by
  have placed : items.all (fun d => d.span.start.isPlaced) = true := by
    simp [Position.isPlaced]
  have order : (fun a b : Spanned Int Decoration => !decide (0 < a.span.start.compare b.span.start)) =
      fun a b => decide (a.span.start ≤ b.span.start) := by
    funext a b
    rw [← decide_not]
    exact decide_eq_decide.mpr Int.not_lt
  rw [Decoration.sortByStart, if_pos placed, order]

/-- Decorations that were moved are sorted as they were before. -/
theorem Decoration.sortByStart_map {move : Position Int → Position Int}
    (keeps : Position.KeepsOrder move) (items : List (Spanned Int Decoration)) :
    Decoration.sortByStart (items.map fun d => ⟨d.span.map move, d.value⟩) =
      (Decoration.sortByStart items).map fun d => ⟨d.span.map move, d.value⟩ := by
  rw [Decoration.sortByStart_eq, Decoration.sortByStart_eq]
  refine (List.map_mergeSort fun d _ e _ => ?_).symm
  show decide (d.span.start.compare e.span.start ≤ 0) =
    decide ((move d.span.start).compare (move e.span.start) ≤ 0)
  rw [keeps]

/-! ## Translations -/

namespace Position

theorem keepsOrder_offsetBy (start : Position Int) : KeepsOrder (·.offsetBy start) :=
  fun p q => compare_offsetBy p q start

theorem offsetBy_injective (start : Position Int) :
    Function.Injective fun p : Position Int => p.offsetBy start := by
  rintro ⟨line, column, offset⟩ ⟨line', column', offset'⟩ same
  simp only [offsetBy_eq, mk.injEq] at same ⊢
  obtain ⟨lines, columns, offsets⟩ := same
  obtain rfl : line = line' := Int.add_left_cancel lines
  refine ⟨rfl, ?_, Int.add_left_cancel offsets⟩
  -- The lines are the same, so that the columns moved alike.
  split at columns
  · exact Int.add_left_cancel columns
  · exact columns

end Position

/-- Moving positions by one start keeps how they compare and tells them apart. So it makes no
difference whether spans are checked, merged or sorted before they are moved or afterwards. -/
theorem translation_embeds_order (start : Position Int) :
    (∀ p q : Position Int, (p.offsetBy start).compare (q.offsetBy start) = p.compare q) ∧
    (Function.Injective fun p : Position Int => p.offsetBy start) ∧
    (∀ p q : Position Int,
      ((∃ failure, Span.createOrFail (p.offsetBy start) (q.offsetBy start) = .error failure) ↔
        ∃ failure, Span.createOrFail p q = .error failure) ∧
      Span.create (p.offsetBy start) (q.offsetBy start) =
        (Span.create p q).map (·.offsetBy start)) ∧
    (∀ a b : Span Int,
      (a.merge b).offsetBy start = (a.offsetBy start).merge (b.offsetBy start)) ∧
    ∀ items : List (Spanned Int Decoration),
      Decoration.sortByStart (Spanned.offsetAll items start) =
        Spanned.offsetAll (Decoration.sortByStart items) start := by
  have keeps := Position.keepsOrder_offsetBy start
  refine ⟨keeps, Position.offsetBy_injective start, fun p q => ?_, ?_, ?_⟩
  · exact ⟨Span.createOrFail_map keeps p q, Span.create_map keeps p q⟩
  · exact Span.merge_map keeps
  · exact Decoration.sortByStart_map keeps

/-- Two decorations that tie keep their order, and one on a later line comes behind them although
its column is the least. -/
example :
    Decoration.sortByStart (Spanned.offsetAll
      [⟨⟨⟨1, 0, 7⟩, ⟨1, 2, 9⟩⟩, .bold⟩, ⟨⟨⟨0, 4, 4⟩, ⟨0, 6, 6⟩⟩, .italic⟩,
        ⟨⟨⟨0, 4, 0⟩, ⟨0, 5, 5⟩⟩, .objectKey⟩] ⟨2, 3, 20⟩) =
      ([⟨⟨⟨2, 7, 24⟩, ⟨2, 9, 26⟩⟩, .italic⟩, ⟨⟨⟨2, 7, 20⟩, ⟨2, 8, 25⟩⟩, .objectKey⟩,
        ⟨⟨⟨3, 0, 27⟩, ⟨3, 2, 29⟩⟩, .bold⟩] : List (Spanned Int Decoration)) := by
  cbv

end Folio
