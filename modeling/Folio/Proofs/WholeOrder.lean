import Folio.Proofs.Covering
import Folio.Proofs.ReadingBack

/-!
# Whole doubles compare like whole numbers

Positions are compared by subtracting lines or columns, and a difference is rounded like any other
result. Rounding keeps the sign of a difference of whole numbers: one that is not zero is far from
the smallest doubles, and one that is too large becomes an infinity of the same sign. So whole
doubles come in the order of the numbers they stand for, however large they are.

1. `Denotes.beq_iff`, `Denotes.sub_le_zero_iff`, `Denotes.zero_lt_sub_iff`: single numbers.
2. `Position.Stands.le_iff`, `Position.Stands.zero_lt_compare_iff`: positions.
-/

namespace Folio

namespace WholeOrderLemmas

open Float.Model Float.Model.UnpackedFloat WholeDoublesLemmas CountingLemmas ReadingBackLemmas

/-! ## Signs -/

/-- `SignOf u z`: the unpacked double `u` compares with zero as the whole number `z` does. -/
def SignOf (u : UnpackedFloat) (z : Int) : Prop :=
  u.compare (.zero .positive) = some (compare z 0) ∧
    (UnpackedFloat.zero .positive).compare u = some (compare z 0).swap

theorem SignOf.congr {u : UnpackedFloat} {z d : Int} (sign : SignOf u z)
    (same : compare z 0 = compare d 0) : SignOf u d := by
  unfold SignOf at sign ⊢
  rw [← same]
  exact sign

theorem compare_mul {z a : Int} (positive : 0 < a) : compare (z * a) 0 = compare z 0 := by
  rcases Int.lt_trichotomy z 0 with less | rfl | more
  · rw [Int.compare_eq_lt.mpr less, Int.compare_eq_lt.mpr (Int.mul_neg_of_neg_of_pos less positive)]
  · rw [Int.zero_mul]
  · rw [Int.compare_eq_gt.mpr more, Int.compare_eq_gt.mpr (Int.mul_pos more positive)]

theorem compare_apply {n : Nat} (some : 0 < n) (s : Sign) :
    compare (s.apply 1) 0 = compare (s.apply n) 0 := by
  have positive : (0 : Int) < n := Int.natCast_pos.mpr some
  cases s with
  | positive => exact (Int.compare_eq_gt.mpr positive).symm
  | negative => exact (Int.compare_eq_lt.mpr (Int.neg_neg_of_pos positive)).symm

/-- Packing keeps the sign, even of a number that is too large to be kept. -/
theorem signOf_pack {s : Sign} {m : Nat} {e : Int} (low : 2 ^ 52 ≤ m) (high : m < 2 ^ 53)
    (least : -1074 ≤ e) (positive : 0 < m) :
    SignOf (Float.Model.pack (.finite s m e positive)).unpack (s.apply 1) := by
  by_cases most : e ≤ 971
  · rw [unpack_pack low high least most]
    cases s <;> exact ⟨rfl, rfl⟩
  · have packed : UnpackedFloat.pack Format.binary64 (.finite s m e positive) =
        packedInfinity Format.binary64 s := by
      refine if_pos ?_
      show 2 ^ 11 ≤ (e + 1023 + 52).toNat + 1
      omega
    show SignOf (UnpackedFloat.unpack Format.binary64
      (UnpackedFloat.pack Format.binary64 (.finite s m e positive))) _
    rw [packed]
    cases s with
    | positive => exact ⟨rfl, rfl⟩
    | negative => exact ⟨rfl, rfl⟩

/-! ## Differences -/

theorem full_of_log2 {m j : Nat} (some : 0 < m) (bits : m.log2 + j = 52) :
    2 ^ 52 ≤ m * 2 ^ j ∧ m * 2 ^ j < 2 ^ 53 := by
  obtain ⟨low, high⟩ := (Nat.log2_eq_iff (Nat.ne_of_gt some)).mp (rfl : m.log2 = m.log2)
  have bits' : m.log2 + 1 + j = 53 := by omega
  rw [← bits, ← bits', Nat.pow_add, Nat.pow_add 2 (m.log2 + 1)]
  exact ⟨Nat.mul_le_mul_right _ low, Nat.mul_lt_mul_of_pos_right high (Nat.two_pow_pos j)⟩

/-- A significand that is too short is made longer before it is rounded, with nothing cut off. -/
theorem round_of_short {m j : Nat} {e : Int} (s : Sign) (some : 0 < m) (bits : m.log2 + j = 52)
    (least : -1074 ≤ e - j) :
    UnpackedFloat.round Format.binary64 s m e =
      UnpackedFloat.round Format.binary64 s (m * 2 ^ j) (e - j) := by
  obtain ⟨low, high⟩ := full_of_log2 some bits
  have target : Format.binary64.targetExponent (totalExponent (m * 2 ^ j) (e - j)) = e - j := by
    have long := targetExponent_of_long (k := 0) (e := e - j) low high (by omega)
    simpa using long
  have total : totalExponent m e = totalExponent (m * 2 ^ j) (e - j) := by
    have length : (m * 2 ^ j).log2 = 52 := (Nat.log2_eq_iff (by omega)).mpr ⟨low, high⟩
    unfold totalExponent
    omega
  have first : (e - (e - j)).toNat = j := by omega
  have second : (e - j - (e - j)).toNat = 0 := by omega
  simp only [UnpackedFloat.round, total, target, decreaseExponent, first, second,
    Nat.shiftLeft_eq, Nat.pow_zero, Nat.mul_one, Int.natCast_zero, Int.sub_zero]

/-- Rounding leaves a full significand and the sign. -/
theorem exists_round_full {m : Nat} {e : Int} (s : Sign) (some : 0 < m) (least : -52 ≤ e) :
    ∃ m' e' positive, UnpackedFloat.round Format.binary64 s m e = .finite s m' e' positive ∧
      2 ^ 52 ≤ m' ∧ m' < 2 ^ 53 ∧ -1074 ≤ e' := by
  by_cases long : 2 ^ 52 ≤ m
  · obtain ⟨m', k, positive, round, low, high, -⟩ := exists_round (e := e) s long (by omega)
    exact ⟨m', e + k, positive, round, low, high, by omega⟩
  · have fewer : m.log2 < 52 := (Nat.log2_lt (by omega)).mpr (by omega)
    obtain ⟨j, bits⟩ : ∃ j, m.log2 + j = 52 := ⟨52 - m.log2, by omega⟩
    obtain ⟨low', -⟩ := full_of_log2 some bits
    obtain ⟨m', k, positive, round, low, high, -⟩ := exists_round (e := e - j) s low' (by omega)
    rw [round_of_short s some bits (by omega)]
    exact ⟨m', e - j + k, positive, round, low, high, by omega⟩

theorem signOf_normalize (z : Int) {e : Int} (least : -52 ≤ e) :
    SignOf (Float.Model.pack (UnpackedFloat.normalize Format.binary64 z e .positive)).unpack z := by
  rcases Int.lt_trichotomy z 0 with negative | rfl | positive
  · obtain ⟨n, rfl⟩ : ∃ n : Nat, z = -(n : Int) := ⟨z.natAbs, by omega⟩
    have some : 0 < n := by omega
    have below : compare (-(n : Int)) 0 = .lt := Int.compare_eq_lt.mpr negative
    simp only [UnpackedFloat.normalize, below, Int.neg_neg, Int.toNat_natCast]
    obtain ⟨m', e', positive, round, low, high, far⟩ := exists_round_full .negative some least
    rw [round]
    exact (signOf_pack low high far positive).congr (compare_apply some _)
  · have nothing : UnpackedFloat.normalize Format.binary64 0 e .positive = .zero .positive := rfl
    rw [nothing]
    exact ⟨rfl, rfl⟩
  · obtain ⟨n, rfl⟩ := Int.eq_ofNat_of_zero_le (Int.le_of_lt positive)
    have some : 0 < n := by omega
    have above : compare (n : Int) 0 = .gt := Int.compare_eq_gt.mpr positive
    simp only [UnpackedFloat.normalize, above, Int.toNat_natCast]
    obtain ⟨m', e', positive, round, low, high, far⟩ := exists_round_full .positive some least
    rw [round]
    exact (signOf_pack low high far positive).congr (compare_apply some _)

theorem apply_mul {a n k l : Nat} (value : a * 2 ^ k = n * 2 ^ l) (s : Sign) :
    s.apply a * 2 ^ k = s.apply n * 2 ^ l := by
  have whole : (a : Int) * 2 ^ k = n * 2 ^ l := by exact_mod_cast value
  cases s with
  | positive => exact whole
  | negative =>
    show -(a : Int) * 2 ^ k = -(n : Int) * 2 ^ l
    rw [Int.neg_mul, Int.neg_mul, whole]

theorem pos_of_value {m n k : Nat} (positive : 0 < m) (value : m * 2 ^ k = n * 2 ^ 52) : 0 < n := by
  refine Nat.pos_of_mul_pos_right (b := 2 ^ 52) ?_
  rw [← value]
  exact Nat.mul_pos positive (Nat.two_pow_pos k)

/-- A difference is found without rounding first, in places of the smaller exponent. -/
theorem sub_finite {s s' : Sign} {m m' n n' : Nat} {e e' : Int} (positive : 0 < m)
    (positive' : 0 < m') (least : -52 ≤ e) (least' : -52 ≤ e')
    (value : m * 2 ^ (e + 52).toNat = n * 2 ^ 52)
    (value' : m' * 2 ^ (e' + 52).toNat = n' * 2 ^ 52) :
    ∃ z, UnpackedFloat.sub Format.binary64 (.finite s m e positive) (.finite s' m' e' positive') =
        UnpackedFloat.normalize Format.binary64 z (min e e') .positive ∧
      z * 2 ^ (min e e' + 52).toNat = (s.apply n - s'.apply n') * 2 ^ 52 := by
  have places : (e + 52).toNat = (e - min e e').toNat + (min e e' + 52).toNat := by omega
  have places' : (e' + 52).toNat = (e' - min e e').toNat + (min e e' + 52).toNat := by omega
  rw [places, Nat.pow_add, ← Nat.mul_assoc] at value
  rw [places', Nat.pow_add, ← Nat.mul_assoc] at value'
  refine ⟨s.apply (m * 2 ^ (e - min e e').toNat : Nat) -
    s'.apply (m' * 2 ^ (e' - min e e').toNat : Nat), ?_, ?_⟩
  · simp only [UnpackedFloat.sub, decreaseExponent, Nat.shiftLeft_eq]
  · rw [Int.sub_mul, Int.sub_mul, apply_mul value s, apply_mul value' s']

/-- A difference of whole numbers keeps its sign when it is rounded and packed. -/
theorem signOf_sub_of_exact {u v : UnpackedFloat} {n m : Int} (left : Exact u n) (right : Exact v m) :
    SignOf (Float.Model.pack (UnpackedFloat.sub Format.binary64 u v)).unpack (n - m) := by
  cases left with
  | zero s =>
    cases right with
    | zero s' => cases s <;> cases s' <;> exact ⟨rfl, rfl⟩
    | @finite s' m' e' positive' n' low' high' least' value' =>
      have some : 0 < n' := pos_of_value positive' value'
      have opposite : 0 - s'.apply n' = (-s').apply n' := by cases s' <;> simp [Sign.apply]
      rw [opposite]
      exact (signOf_pack low' high' (by omega) positive').congr (compare_apply some _)
  | @finite s m e positive n low high least value =>
    cases right with
    | zero s' =>
      have some : 0 < n := pos_of_value positive value
      rw [Int.sub_zero]
      exact (signOf_pack low high (by omega) positive).congr (compare_apply some _)
    | @finite s' m' e' positive' n' low' high' least' value' =>
      obtain ⟨z, difference, same⟩ := sub_finite positive positive' least least' value value'
      rw [difference]
      refine (signOf_normalize z (by omega)).congr ?_
      rw [← compare_mul (Int.pow_pos (by decide) : (0 : Int) < 2 ^ (min e e' + 52).toNat), same]
      exact compare_mul (by decide)

/-! ## Equality -/

/-- A number has one exponent and one significand, so comparing these is comparing numbers. -/
theorem compare_parts_iff {m m' n n' : Nat} {e e' : Int} (low : 2 ^ 52 ≤ m) (high : m < 2 ^ 53)
    (least : -52 ≤ e) (value : m * 2 ^ (e + 52).toNat = n * 2 ^ 52) (low' : 2 ^ 52 ≤ m')
    (high' : m' < 2 ^ 53) (least' : -52 ≤ e') (value' : m' * 2 ^ (e' + 52).toNat = n' * 2 ^ 52) :
    (compare e e').then (compare m m') = .eq ↔ n = n' := by
  rw [Ordering.then_eq_eq, Int.compare_eq_eq, Nat.compare_eq_eq]
  constructor
  · rintro ⟨rfl, rfl⟩
    exact Nat.eq_of_mul_eq_mul_right (by decide) (value.symm.trans value')
  · rintro rfl
    have full : Full ⟨false, m, e⟩ := ⟨low, high, least⟩
    have full' : Full ⟨false, m', e'⟩ := ⟨low', high', least'⟩
    exact (full.eq_of_value full' (value.trans value'.symm)).symm

theorem compare_eq_iff_of_exact {u v : UnpackedFloat} {n m : Int} (left : Exact u n)
    (right : Exact v m) : u.compare v = some .eq ↔ n = m := by
  cases left with
  | zero s =>
    cases right with
    | zero s' => exact iff_of_true rfl rfl
    | @finite s' m' e' positive' n' low' high' least' value' =>
      have some := pos_of_value positive' value'
      cases s' <;> simp [UnpackedFloat.compare, Sign.apply] <;> omega
  | @finite s m e positive n low high least value =>
    have some := pos_of_value positive value
    cases right with
    | zero s' => cases s <;> simp [UnpackedFloat.compare, Sign.apply] <;> omega
    | @finite s' m' e' positive' n' low' high' least' value' =>
      have some' := pos_of_value positive' value'
      have parts := compare_parts_iff low high least value low' high' least' value'
      cases s <;> cases s' <;>
        simp [UnpackedFloat.compare, Sign.apply, parts] <;> omega

end WholeOrderLemmas

open WholeOrderLemmas CountingLemmas

/-! ## Whole doubles -/

namespace Denotes

variable {x y : Float} {n m : Int}

theorem beq_iff (left : Denotes x n) (right : Denotes y m) : (x == y) = true ↔ n = m := by
  rw [← compare_eq_iff_of_exact (denotes_iff.mp left) (denotes_iff.mp right)]
  change (x.toModel.unpack.compare y.toModel.unpack == some .eq) = true ↔ _
  rw [beq_iff_eq]

theorem signOf_sub (left : Denotes x n) (right : Denotes y m) :
    SignOf (x - y).toModel.unpack (n - m) :=
  signOf_sub_of_exact (denotes_iff.mp left) (denotes_iff.mp right)

theorem sub_le_zero_iff (left : Denotes x n) (right : Denotes y m) : x - y ≤ 0 ↔ n ≤ m := by
  change decide ((x - y).toModel.unpack.le (0 : Float).toModel.unpack = true) = true ↔ _
  rw [decide_eq_true_iff]
  change Option.any (fun o => o.isLE) ((x - y).toModel.unpack.compare (.zero .positive)) = true ↔ _
  rw [(left.signOf_sub right).1, Option.any_some, Int.isLE_compare]
  omega

theorem zero_lt_sub_iff (left : Denotes x n) (right : Denotes y m) : 0 < x - y ↔ m < n := by
  change decide ((0 : Float).toModel.unpack.lt (x - y).toModel.unpack = true) = true ↔ _
  rw [decide_eq_true_iff]
  change ((Float.Model.UnpackedFloat.zero .positive).compare (x - y).toModel.unpack == some .lt) = true ↔ _
  rw [(left.signOf_sub right).2, beq_iff_eq, Option.some_inj, Ordering.swap_eq_lt,
    Int.compare_eq_gt]
  omega

theorem iff_eq (number : Denotes x n) :
    Denotes x m ↔ n = m := by
  constructor
  · rintro ⟨b', value', -, rfl⟩
    obtain ⟨b, value, -, rfl⟩ := number
    rw [Option.some.inj (value.symm.trans value')]
  · rintro rfl
    exact number

end Denotes

instance (x : Float) (n : Int) : Decidable (Denotes x n) :=
  decidable_of_iff ((Binary.ofFloat? x).any fun b => b.isWhole && decide (b.trunc = n)) (by
    simp only [Denotes, Option.any_eq_true, Bool.and_eq_true, decide_eq_true_eq])

/-! ## Positions -/

namespace Position

/-- `a.Stands p`: the lines and columns of `a` are those of `p`. -/
def Stands (a : Position Float) (p : Position Int) : Prop :=
  Denotes a.line p.line ∧ Denotes a.column p.column

instance (a : Position Float) (p : Position Int) : Decidable (a.Stands p) :=
  inferInstanceAs (Decidable (_ ∧ _))

variable {a b : Position Float} {p q : Position Int}

theorem Stands.compare_eq (left : a.Stands p) (right : b.Stands q) :
    a.compare b = if p.line = q.line then a.column - b.column else a.line - b.line := by
  have lines := left.1.beq_iff right.1
  by_cases same : p.line = q.line
  · rw [if_pos same]
    exact if_pos (lines.mpr same)
  · rw [if_neg same]
    exact if_neg (mt lines.mp same)

/-- Positions come in the order of the places they stand for. -/
theorem Stands.le_iff (left : a.Stands p) (right : b.Stands q) : a ≤ b ↔ p ≤ q := by
  change a.compare b ≤ (0 : Float) ↔ _
  rw [Position.le_iff, left.compare_eq right]
  split
  next same =>
    rw [left.2.sub_le_zero_iff right.2]
    omega
  next other =>
    rw [left.1.sub_le_zero_iff right.1]
    omega

theorem Stands.zero_lt_compare_iff (left : a.Stands p) (right : b.Stands q) :
    0 < a.compare b ↔ ¬ p ≤ q := by
  rw [Position.le_iff, left.compare_eq right]
  split
  next same =>
    rw [left.2.zero_lt_sub_iff right.2]
    omega
  next other =>
    rw [left.1.zero_lt_sub_iff right.1]
    omega

theorem Stands.isPlaced (stands : a.Stands p) : a.isPlaced = true := by
  unfold Position.isPlaced
  rw [Bool.and_eq_true]
  exact ⟨(stands.1.beq_iff stands.1).mpr rfl, (stands.2.beq_iff stands.2).mpr rfl⟩

end Position

namespace Span

def Stands (a : Span Float) (p : Span Int) : Prop := a.start.Stands p.start ∧ a.stop.Stands p.stop

instance (a : Span Float) (p : Span Int) : Decidable (a.Stands p) :=
  inferInstanceAs (Decidable (_ ∧ _))

end Span

end Folio
