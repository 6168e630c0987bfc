import Folio.Proofs.Translation
import Mathlib.Order.Defs.PartialOrder

/-!
# The order of positions

Positions are compared by line and then by column. Moving them all by one start keeps their order,
and a position measured from a start does not lie before it.
-/

namespace Folio

namespace Position

variable {α : Type} [Coordinate α]

/-- `p ≤ q`: `p` does not lie after `q`. -/
instance : LE (Position α) := ⟨fun p q => p.compare q ≤ 0⟩

/-- The comparison in plain arithmetic. -/
theorem compare_eq (p q : Position Int) :
    p.compare q = if p.line = q.line then p.column - q.column else p.line - q.line := by
  have sameLine : (p.line == q.line) = decide (p.line = q.line) := rfl
  change (if (p.line == q.line) = true then p.column - q.column else p.line - q.line) = _
  simp [sameLine]

theorem le_iff {p q : Position Int} :
    p ≤ q ↔ p.line < q.line ∨ p.line = q.line ∧ p.column ≤ q.column := by
  change p.compare q ≤ (0 : Int) ↔ _
  rw [compare_eq]
  split <;> omega

instance : Preorder (Position Int) where
  le_refl p := le_iff.mpr (by omega)
  le_trans p q r first second := by
    rw [le_iff] at first second ⊢
    omega

theorem lt_iff {p q : Position Int} :
    p < q ↔ p.line < q.line ∨ p.line = q.line ∧ p.column < q.column := by
  rw [lt_iff_le_not_ge, le_iff, le_iff]
  omega

theorem le_total (p q : Position Int) : p ≤ q ∨ q ≤ p := by
  rw [le_iff, le_iff]
  omega

/-- The comparison read the other way round. -/
theorem zero_le_compare {p q : Position Int} : 0 ≤ p.compare q ↔ q ≤ p := by
  rw [le_iff, compare_eq]
  split <;> omega

/-- Moving two positions by the same start does not change how they compare. -/
theorem compare_offsetBy (p q start : Position Int) :
    (p.offsetBy start).compare (q.offsetBy start) = p.compare q := by
  simp only [compare_eq, offsetBy_eq]
  by_cases same : p.line = q.line
  · -- On one line either both columns move or neither does.
    rw [same, if_pos rfl, if_pos rfl]
    split <;> omega
  · rw [if_neg (by omega), if_neg same]
    omega

theorem offsetBy_le_offsetBy {p q : Position Int} (start : Position Int) :
    p.offsetBy start ≤ q.offsetBy start ↔ p ≤ q := by
  change (p.offsetBy start).compare (q.offsetBy start) ≤ 0 ↔ p.compare q ≤ 0
  rw [compare_offsetBy]

/-- Neither line nor column is negative. -/
def Nonneg (p : Position Int) : Prop := 0 ≤ p.line ∧ 0 ≤ p.column

instance (p : Position Int) : Decidable p.Nonneg :=
  inferInstanceAs (Decidable (0 ≤ p.line ∧ 0 ≤ p.column))

theorem le_offsetBy {p : Position Int} (nonneg : p.Nonneg) (start : Position Int) :
    start ≤ p.offsetBy start := by
  obtain ⟨line, column⟩ := nonneg
  simp only [le_iff, offsetBy_eq]
  split <;> omega

end Position

end Folio
