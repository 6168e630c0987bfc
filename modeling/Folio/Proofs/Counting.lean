import Folio.Proofs.WholeDoubles
import Mathlib

/-!
# Counting on in doubles

Positions are kept from zero and shown from one, and the one is added in doubles, which round. A sum
is rounded to the fifty-three leading bits of the exact one, so the next number is found as long as
it has no more bits than that. This module follows the sum through its three stages.

1. Rounding: `exists_round` says what becomes of a long significand, and `Rounded` bounds it.
2. Packing: a number with a full significand and an exponent in range is stored as it is.
3. Reading the stored double as a whole number, `denotes_iff`.

Main result: `Denotes.add_one`.
-/

namespace Folio

namespace CountingLemmas

open Float.Model Float.Model.UnpackedFloat WholeDoublesLemmas

/-! ## Rounding -/

section

variable {m k : Nat} {e : Int}

theorem shiftRight_mantissa (em : ExtendedMantissa) (k : Nat) :
    (em >>> k).mantissa = em.mantissa / 2 ^ k := by
  induction k with
  | zero => simp [HShiftRight.hShiftRight, Nat.repeat]
  | succ k ih =>
    show (em >>> k).mantissa / 2 = _
    rw [ih, Nat.div_div_eq_div_mul, ← Nat.pow_succ]

/-- The bit behind the last one tells whether at least a half is cut off. -/
theorem shiftRight_roundBit (m k : Nat) :
    (ExtendedMantissa.mk m false false >>> k).roundBit = decide (2 ^ k ≤ 2 * (m % 2 ^ k)) := by
  cases k with
  | zero => simp [HShiftRight.hShiftRight, Nat.repeat, Nat.mod_one]
  | succ k =>
    show ((ExtendedMantissa.mk m false false >>> k).mantissa % 2 != 0) = _
    rw [shiftRight_mantissa, Nat.mod_pow_succ, Nat.pow_succ]
    have low : m % 2 ^ k < 2 ^ k := Nat.mod_lt _ (Nat.two_pow_pos k)
    obtain even | odd := Nat.mod_two_eq_zero_or_one (m / 2 ^ k)
    · rw [even]
      exact (decide_eq_false (by omega)).symm
    · rw [odd]
      exact (decide_eq_true (by omega)).symm

theorem roundedMantissa_bounds (em : ExtendedMantissa) :
    em.mantissa ≤ em.roundedMantissa ∧ em.roundedMantissa ≤ em.mantissa + 1 := by
  obtain ⟨m, _ | _, _ | _⟩ := em <;>
    simp only [ExtendedMantissa.roundedMantissa, ExtendedMantissa.accuracy,
      Accuracy.roundToNearestEven] <;> omega

theorem roundedMantissa_of_roundBit {em : ExtendedMantissa} (clear : em.roundBit = false) :
    em.roundedMantissa = em.mantissa := by
  obtain ⟨m, _ | _, _ | _⟩ := em
  · rfl
  · rfl
  · cases clear
  · cases clear

theorem targetExponent_of_long (low : 2 ^ (52 + k) ≤ m) (high : m < 2 ^ (53 + k))
    (least : -1074 ≤ e + k) :
    Format.binary64.targetExponent (totalExponent m e) = e + k := by
  have positive : m ≠ 0 := by
    have := Nat.two_pow_pos (52 + k)
    omega
  have bits : m.log2 = 52 + k := by
    rw [Nat.log2_eq_iff positive, Nat.add_right_comm]
    exact ⟨low, high⟩
  unfold Format.targetExponent totalExponent
  rw [bits]
  have size : Format.binary64.mantissaBits = 53 := rfl
  have limit : Format.binary64.minExponent = -1074 := rfl
  rw [size, limit]
  omega

theorem shiftToTargetExponent_of_long (low : 2 ^ (52 + k) ≤ m) (high : m < 2 ^ (53 + k))
    (least : -1074 ≤ e + k) :
    shiftToTargetExponent Format.binary64 m e .exact =
      (ExtendedMantissa.mk m false false >>> k, e + k) := by
  have steps : (e + k - e).toNat = k := by omega
  simp only [shiftToTargetExponent, shiftToExponent, targetExponent_of_long low high least, steps,
    ExtendedMantissa.ofMantissaAndAccuracy]

/-- Rounding goes by the leading fifty-three bits, which are shifted once more if they overflow. -/
theorem round_of_long {m' j : Nat} (low : 2 ^ (52 + k) ≤ m) (high : m < 2 ^ (53 + k))
    (least : -1074 ≤ e) (s : Sign) (short : 2 ^ 52 ≤ m') (fits : m' < 2 ^ 53)
    (rounded : (ExtendedMantissa.mk m false false >>> k).roundedMantissa = m' * 2 ^ j)
    (positive : 0 < m') :
    UnpackedFloat.round Format.binary64 s m e = .finite s m' (e + (k + j : Nat)) positive := by
  have steps : (e - (e + k)).toNat = 0 := by omega
  have first := shiftToTargetExponent_of_long (e := e) low high (by omega)
  have again := shiftToTargetExponent_of_long (m := m' * 2 ^ j) (k := j) (e := e + k)
    (by rw [Nat.pow_add]; exact Nat.mul_le_mul_right _ short)
    (by rw [Nat.pow_add]; exact Nat.mul_lt_mul_of_pos_right fits (Nat.two_pow_pos j))
    (by omega)
  have final : (ExtendedMantissa.mk (m' * 2 ^ j) false false >>> j).mantissa = m' := by
    rw [shiftRight_mantissa]
    exact Nat.mul_div_cancel _ (Nat.two_pow_pos j)
  have target := targetExponent_of_long (e := e) low high (by omega)
  simp only [UnpackedFloat.round, decreaseExponent, target, steps, Nat.shiftLeft_zero,
    Int.natCast_zero, Int.sub_zero, roundWithAccuracy, first, rounded, again, final,
    Int.natCast_add, ← Int.add_assoc]
  exact dif_neg (Nat.ne_of_gt positive)

/-- `Rounded m v`: the number `v` is what is left of `m` when everything behind its fifty-three
leading bits is rounded off, up or down. It is rounded down if less than a half is cut off. -/
def Rounded (m v : Nat) : Prop :=
  ∃ k, 2 ^ (52 + k) ≤ m ∧ m < 2 ^ (53 + k) ∧ 2 ^ k ∣ v ∧ v ≤ (m / 2 ^ k + 1) * 2 ^ k ∧
    (2 * (m % 2 ^ k) < 2 ^ k → v = m / 2 ^ k * 2 ^ k)

theorem exists_round (s : Sign) (long : 2 ^ 52 ≤ m) (least : -1074 ≤ e) :
    ∃ m' k positive,
      UnpackedFloat.round Format.binary64 s m e = .finite s m' (e + (k : Nat)) positive ∧
      2 ^ 52 ≤ m' ∧ m' < 2 ^ 53 ∧ Rounded m (m' * 2 ^ k) := by
  obtain ⟨k, bits⟩ : ∃ k, m.log2 = 52 + k := by
    refine Nat.exists_eq_add_of_le ((Nat.le_log2 ?_).mpr long)
    omega
  obtain ⟨low, high⟩ := (Nat.log2_eq_iff (by omega)).mp bits
  rw [Nat.add_right_comm] at high
  have lowest : 2 ^ 52 ≤ m / 2 ^ k := by
    rwa [Nat.le_div_iff_mul_le (Nat.two_pow_pos k), ← Nat.pow_add]
  have highest : m / 2 ^ k < 2 ^ 53 := by
    rwa [Nat.div_lt_iff_lt_mul (Nat.two_pow_pos k), ← Nat.pow_add]
  -- The leading bits, and what they are rounded to.
  have leading : (ExtendedMantissa.mk m false false >>> k).mantissa = m / 2 ^ k :=
    shiftRight_mantissa _ k
  obtain ⟨r, rounded⟩ :
      ∃ r, (ExtendedMantissa.mk m false false >>> k).roundedMantissa = r := ⟨_, rfl⟩
  obtain ⟨down, up⟩ := roundedMantissa_bounds (ExtendedMantissa.mk m false false >>> k)
  rw [rounded, leading] at down up
  -- One more than the largest significand is the smallest one, a place further up.
  obtain ⟨j, m', rfl, short, fits⟩ : ∃ j m', r = m' * 2 ^ j ∧ 2 ^ 52 ≤ m' ∧ m' < 2 ^ 53 := by
    by_cases carry : r < 2 ^ 53
    · exact ⟨0, r, (Nat.mul_one r).symm, by omega, carry⟩
    · exact ⟨1, 2 ^ 52, by omega, by decide, by decide⟩
  have value : m' * 2 ^ (k + j) = m' * 2 ^ j * 2 ^ k := by ring
  have positive : 0 < m' := by omega
  refine ⟨m', k + j, positive, round_of_long low high least s short fits rounded positive,
    short, fits, k, low, high, Dvd.intro_left _ value.symm, ?_, ?_⟩
  · rw [value]
    exact Nat.mul_le_mul_right _ up
  · intro less
    rw [value, ← rounded, roundedMantissa_of_roundBit, leading]
    rw [shiftRight_roundBit, decide_eq_false_iff_not]
    omega

namespace Rounded

variable {v n a j t : Nat}

/-- The doubles from `2 ^ 52` on are whole, and below that nothing whole is cut off. -/
theorem whole (rounded : Rounded (n * 2 ^ 52) v) : 2 ^ 52 ∣ v := by
  obtain ⟨k, -, -, multiple, -, down⟩ := rounded
  by_cases far : 52 ≤ k
  · exact Nat.dvd_trans (Nat.pow_dvd_pow 2 far) multiple
  · have all : 2 ^ k ∣ n * 2 ^ 52 := Dvd.dvd.mul_left (Nat.pow_dvd_pow 2 (by omega)) n
    rw [down (by rw [Nat.mod_eq_zero_of_dvd all]; exact Nat.two_pow_pos k), Nat.div_mul_cancel all]
    exact Nat.dvd_mul_left _ _

theorem eq_of_le (rounded : Rounded (n * 2 ^ 52) v) (small : n ≤ 2 ^ 53) : v = n * 2 ^ 52 := by
  obtain ⟨k, low, -, -, -, down⟩ := rounded
  have all : 2 ^ k ∣ n * 2 ^ 52 := by
    by_cases far : 52 < k
    · have : 2 ^ (52 + 53) ≤ 2 ^ (52 + k) := Nat.pow_le_pow_right (by decide) (by omega)
      have last : n = 2 ^ 53 := by omega
      have : k ≤ 53 := by
        have bound : 2 ^ (52 + k) < 2 ^ (52 + 54) := Nat.lt_of_le_of_lt low (by omega)
        have := (Nat.pow_lt_pow_iff_right (by decide)).mp bound
        omega
      rw [last, ← Nat.pow_add]
      exact Nat.pow_dvd_pow 2 (by omega)
    · exact Dvd.dvd.mul_left (Nat.pow_dvd_pow 2 (by omega)) n
  rw [down (by rw [Nat.mod_eq_zero_of_dvd all]; exact Nat.two_pow_pos k), Nat.div_mul_cancel all]

/-- Rounding does not pass a double. -/
theorem le_of_lt (rounded : Rounded m v) (fits : a < 2 ^ 53) (less : m < a * 2 ^ j) :
    v ≤ a * 2 ^ j := by
  obtain ⟨k, low, -, -, up, -⟩ := rounded
  have bound : 2 ^ (52 + k) < 2 ^ (53 + j) := by
    rw [Nat.pow_add 2 53]
    exact Nat.lt_trans (Nat.lt_of_le_of_lt low less)
      (Nat.mul_lt_mul_of_pos_right fits (Nat.two_pow_pos j))
  have place : k ≤ j := by
    have := (Nat.pow_lt_pow_iff_right (by decide)).mp bound
    omega
  obtain ⟨c, multiple⟩ : 2 ^ k ∣ a * 2 ^ j := Dvd.dvd.mul_left (Nat.pow_dvd_pow 2 place) a
  rw [multiple, Nat.mul_comm] at less ⊢
  exact Nat.le_trans up (Nat.mul_le_mul_right _ (Nat.div_lt_of_lt_mul (by rwa [Nat.mul_comm])))

/-- Less than half a place above a double, rounding leads back to it. -/
theorem eq_of_near (rounded : Rounded (a * 2 ^ j + t) v) (short : 2 ^ 52 ≤ a) (fits : a < 2 ^ 53)
    (near : 2 * t < 2 ^ j) : v = a * 2 ^ j := by
  obtain ⟨k, low, high, -, -, down⟩ := rounded
  have place : k = j := by
    have below : 2 ^ (52 + k) < 2 ^ (53 + j) := by
      rw [Nat.pow_add 2 53]
      calc 2 ^ (52 + k) ≤ a * 2 ^ j + t := low
        _ < (a + 1) * 2 ^ j := by rw [Nat.add_mul]; omega
        _ ≤ 2 ^ 53 * 2 ^ j := Nat.mul_le_mul_right _ fits
    have above : 2 ^ (52 + j) < 2 ^ (53 + k) := by
      rw [Nat.pow_add 2 52]
      exact Nat.lt_of_le_of_lt (Nat.le_trans (Nat.mul_le_mul_right _ short) (by omega)) high
    have := (Nat.pow_lt_pow_iff_right (by decide)).mp below
    have := (Nat.pow_lt_pow_iff_right (by decide)).mp above
    omega
  have rest : (a * 2 ^ j + t) % 2 ^ j = t := by
    rw [Nat.mul_add_mod_self_right, Nat.mod_eq_of_lt (by omega)]
  have leading : (a * 2 ^ j + t) / 2 ^ j = a := by
    rw [Nat.mul_comm, Nat.mul_add_div (Nat.two_pow_pos j), Nat.div_eq_of_lt (by omega),
      Nat.add_zero]
  rw [place, rest, leading] at down
  exact down near

end Rounded

end

/-! ## Packing -/

/-- Packing keeps a number whose significand has full length and whose exponent is in range. -/
theorem unpack_pack {s : Sign} {m : Nat} {e : Int} (low : 2 ^ 52 ≤ m) (high : m < 2 ^ 53)
    (least : -1074 ≤ e) (most : e ≤ 971) (positive : 0 < m) :
    (Float.Model.pack (.finite s m e positive)).unpack = .finite s m e positive := by
  have bits : m.log2 + 1 = Format.binary64.mantissaBits := by
    have : m.log2 = 52 := (Nat.log2_eq_iff (by omega)).mpr ⟨low, high⟩
    rw [this]
    rfl
  -- The exponent as it is stored.
  obtain ⟨biased, stored⟩ : ∃ n : Nat, e + 1075 = n := ⟨(e + 1075).toNat, by omega⟩
  have toNat : (e + Format.binary64.exponentBias +
      Format.binary64.mantissaBitsWithoutImplicit).toNat = biased := by
    show (e + 1023 + 52).toNat = biased
    omega
  have packed : UnpackedFloat.pack Format.binary64 (.finite s m e positive) =
      packComponents Format.binary64 s (BitVec.ofNat 11 biased) (BitVec.ofNat 52 m) := by
    simp only [UnpackedFloat.pack, toNat, bits, if_true]
    rw [if_neg]
    show ¬ 2 ^ 11 ≤ biased + 1
    omega
  have exponent : (BitVec.ofNat 11 biased).toNat = biased := Nat.mod_eq_of_lt (by omega)
  have notTop : BitVec.ofNat 11 biased ≠ -1#11 := by
    intro top
    have := congrArg BitVec.toNat top
    rw [exponent] at this
    change biased = 2047 at this
    omega
  have notLow : BitVec.ofNat 11 biased ≠ 0#11 := by
    intro zero
    have := congrArg BitVec.toNat zero
    rw [exponent] at this
    change biased = 0 at this
    omega
  have leading : (1#1 ++ BitVec.ofNat 52 m).toNat = m := by
    rw [BitVec.toNat_append, ← Nat.shiftLeft_add_eq_or_of_lt (BitVec.isLt _), BitVec.toNat_ofNat]
    show 1 <<< 52 + m % 2 ^ 52 = m
    omega
  have value : (biased : Int) - (1023 + 52) = e := by omega
  show UnpackedFloat.unpack Format.binary64
    (UnpackedFloat.pack Format.binary64 (.finite s m e positive)) = _
  rw [packed]
  simp only [UnpackedFloat.unpack, unpackMantissa_packComponents, unpackExponent_packComponents,
    unpackSign_packComponents, Sign.ofBitVec_toBitVec, if_neg notTop, if_neg notLow, leading, exponent]
  show UnpackedFloat.finite s m ((biased : Int) - (1023 + 52)) _ = _
  simp only [value]

/-! ## Unpacked doubles as whole numbers -/

/-- `Exact u n`: the unpacked double `u` is the whole number `n`, with a full significand. -/
inductive Exact : UnpackedFloat → Int → Prop
  | zero (s : Sign) : Exact (.zero s) 0
  | finite {s : Sign} {m : Nat} {e : Int} {positive : 0 < m} {n : Nat} (low : 2 ^ 52 ≤ m)
      (high : m < 2 ^ 53) (least : -52 ≤ e) (value : m * 2 ^ (e + 52).toNat = n * 2 ^ 52) :
      Exact (.finite s m e positive) (s.apply n)

theorem trunc_eq_apply (b : Binary) : b.trunc = (sign b).apply b.floor := by
  unfold Binary.trunc sign
  split <;> rfl

/-- The whole part of a number that does not end behind the fifty-second place after the point. -/
theorem isWhole_and_floor_iff {b : Binary} {n : Nat} (least : -52 ≤ b.exponent) :
    b.isWhole = true ∧ b.floor = n ↔ b.significand * 2 ^ (b.exponent + 52).toNat = n * 2 ^ 52 := by
  obtain ⟨negative, m, e⟩ := b
  simp only [Binary.isWhole, Binary.floor, Nat.pow_eq] at least ⊢
  by_cases up : 0 ≤ e
  · have places : (e + 52).toNat = e.toNat + 52 := by omega
    rw [if_pos up, places, Nat.pow_add, ← Nat.mul_assoc]
    simp only [up, decide_true, Bool.true_or, true_and]
    exact (Nat.mul_left_inj (by decide)).symm
  · obtain ⟨k, places⟩ : ∃ k, (-e).toNat = k := ⟨_, rfl⟩
    have places' : 2 ^ 52 = 2 ^ k * 2 ^ (e + 52).toNat := by
      rw [← Nat.pow_add]
      congr 1
      omega
    rw [if_neg up, places, places', ← Nat.mul_assoc,
      Nat.mul_left_inj (Nat.ne_of_gt (Nat.two_pow_pos _))]
    simp only [up, decide_false, Bool.false_or, beq_iff_eq]
    constructor
    · rintro ⟨none, rfl⟩
      exact (Nat.div_mul_cancel (Nat.dvd_of_mod_eq_zero none)).symm
    · rintro rfl
      exact ⟨Nat.mul_mod_left _ _, Nat.mul_div_cancel _ (Nat.two_pow_pos k)⟩

/-- A double without an exact value does not unpack to a number. -/
theorem unpack_of_ofFloat?_none {x : Float} (none : Binary.ofFloat? x = none) :
    (∃ s, x.toModel.unpack = .infinity s) ∨ x.toModel.unpack = .notANumber := by
  have unpacked : x.toModel.unpack = UnpackedFloat.unpack Format.binary64 x.toBits.toBitVec := rfl
  have allOnes : ∀ e : BitVec 11, e = -1#11 ↔ e.toNat = 2047 := fun e => BitVec.toNat_inj.symm
  unfold Binary.ofFloat? at none
  simp only at none
  split at none
  next top =>
    rw [unpacked, UnpackedFloat.unpack]
    simp only [allOnes, exponent_toNat, if_pos top]
    split
    · exact .inl ⟨_, rfl⟩
    · exact .inr rfl
  · cases none
  · cases none

theorem floor_pos_of_whole {b : Binary} (whole : b.isWhole = true) (positive : 0 < b.significand) :
    0 < b.floor := by
  simp only [Binary.isWhole, Nat.pow_eq, Bool.or_eq_true, decide_eq_true_eq, beq_iff_eq] at whole
  unfold Binary.floor
  split
  next up => exact Nat.mul_pos positive (Nat.two_pow_pos _)
  next down =>
    obtain up | none := whole
    · exact absurd up down
    · rw [Nat.pow_eq, Nat.div_pos_iff]
      exact ⟨Nat.two_pow_pos _, Nat.le_of_dvd positive (Nat.dvd_of_mod_eq_zero none)⟩

/-- A whole double that is not zero has a full significand, and no place is behind the
fifty-second after the point. -/
theorem full_of_whole {x : Float} {b : Binary} (value : Binary.ofFloat? x = some b)
    (whole : b.isWhole = true) (positive : 0 < b.significand) :
    2 ^ 52 ≤ b.significand ∧ b.significand < 2 ^ 53 ∧ -52 ≤ b.exponent := by
  have normal := normal_of_ofFloat? value
  have least := (floor_pos_iff normal).mp (floor_pos_of_whole whole positive)
  obtain ⟨short, long | ⟨far, -⟩⟩ := normal
  · exact ⟨long, short, least⟩
  · omega

/-- A double stands for a whole number if it unpacks to it. -/
theorem denotes_iff {x : Float} {n : Int} : Denotes x n ↔ Exact x.toModel.unpack n := by
  constructor
  · rintro ⟨b, value, whole, rfl⟩
    rw [trunc_eq_apply]
    obtain ⟨nothing, unpacked⟩ | ⟨positive, unpacked⟩ := unpack_of_ofFloat? value
    · have zero : (sign b).apply b.floor = 0 := by
        cases sign b <;> simp [Binary.floor, nothing, Sign.apply]
      rw [unpacked, zero]
      exact .zero _
    · obtain ⟨long, short, least⟩ := full_of_whole value whole positive
      rw [unpacked]
      exact .finite long short least ((isWhole_and_floor_iff least).mp ⟨whole, rfl⟩)
  · intro exact
    cases value : Binary.ofFloat? x with
    | none =>
      obtain ⟨s, unpacked⟩ | unpacked := unpack_of_ofFloat?_none value
      · rw [unpacked] at exact
        cases exact
      · rw [unpacked] at exact
        cases exact
    | some b =>
      refine ⟨b, value, ?_⟩
      rw [trunc_eq_apply]
      obtain ⟨nothing, unpacked⟩ | ⟨positive, unpacked⟩ := unpack_of_ofFloat? value
      · rw [unpacked] at exact
        cases exact
        cases sign b <;> simp [Binary.isWhole, Binary.floor, nothing, Sign.apply]
      · rw [unpacked] at exact
        cases exact with
        | finite low high least same =>
          obtain ⟨whole, floor⟩ := (isWhole_and_floor_iff least).mpr same
          exact ⟨whole, by rw [floor]⟩

/-! ## Adding one -/

def one : UnpackedFloat := .finite .positive (2 ^ 52) (-52) (by decide)

theorem exact_one : Exact one 1 :=
  .finite (n := 1) (by decide) (by decide) (by decide) (by decide)

/-- The sum is found without rounding, in places of the fifty-second after the point. -/
theorem add_one_eq {s : Sign} {m n : Nat} {e : Int} {positive : 0 < m} (least : -52 ≤ e)
    (value : m * 2 ^ (e + 52).toNat = n * 2 ^ 52) :
    UnpackedFloat.add Format.binary64 (.finite s m e positive) one =
      UnpackedFloat.normalize Format.binary64 ((s.apply n + 1) * 2 ^ 52) (-52) .positive := by
  have places : min e (-52) = -52 := by omega
  have shift : (e - -52).toNat = (e + 52).toNat := by omega
  have sum : s.apply (n * 2 ^ 52 : Nat) + 2 ^ 52 = (s.apply n + 1) * 2 ^ 52 := by
    cases s <;> simp only [Sign.apply] <;> omega
  simp only [UnpackedFloat.add, one, places, decreaseExponent, shift, Nat.shiftLeft_eq, value]
  rw [← sum]
  rfl

/-- Every whole number is rounded to a whole number. -/
theorem exists_round_whole {n : Nat} (s : Sign) (positive : 0 < n) :
    ∃ u : Nat, Exact (UnpackedFloat.round Format.binary64 s (n * 2 ^ 52) (-52)) (s.apply u) ∧
      Rounded (n * 2 ^ 52) (u * 2 ^ 52) := by
  obtain ⟨m, k, positive, round, short, fits, rounded⟩ :=
    exists_round (e := -52) s (Nat.le_mul_of_pos_left _ positive) (by decide)
  obtain ⟨u, value⟩ := rounded.whole
  have value : m * 2 ^ k = u * 2 ^ 52 := by rw [value, Nat.mul_comm]
  have places : (-52 + (k : Int) + 52).toNat = k := by omega
  rw [value] at rounded
  refine ⟨u, ?_, rounded⟩
  rw [round]
  exact .finite short fits (by omega) (by rw [places, value])

theorem normalize_of_pos {z : Int} (positive : 0 < z) (s : Sign) :
    UnpackedFloat.normalize Format.binary64 (z * 2 ^ 52) (-52) s =
      UnpackedFloat.round Format.binary64 .positive (z.toNat * 2 ^ 52) (-52) := by
  have above : compare (z * 2 ^ 52) 0 = .gt := Int.compare_eq_gt.mpr (by omega)
  have magnitude : (z * 2 ^ 52).toNat = z.toNat * 2 ^ 52 := by omega
  simp only [UnpackedFloat.normalize, above, magnitude]

theorem normalize_of_neg {z : Int} (negative : z < 0) (s : Sign) :
    UnpackedFloat.normalize Format.binary64 (z * 2 ^ 52) (-52) s =
      UnpackedFloat.round Format.binary64 .negative ((-z).toNat * 2 ^ 52) (-52) := by
  have below : compare (z * 2 ^ 52) 0 = .lt := Int.compare_eq_lt.mpr (by omega)
  have magnitude : (-(z * 2 ^ 52)).toNat = (-z).toNat * 2 ^ 52 := by omega
  simp only [UnpackedFloat.normalize, below, magnitude]

/-- Counting away from zero: from where doubles are four apart nothing changes, and below that no
sum is large. -/
theorem Rounded.next {m n k v : Nat} (rounded : Rounded ((n + 1) * 2 ^ 52) (v * 2 ^ 52))
    (low : 2 ^ 52 ≤ m) (high : m < 2 ^ 53) (value : m * 2 ^ k = n * 2 ^ 52) :
    v ≤ max n (2 ^ 56) ∧ (n < 2 ^ 53 → v = n + 1) := by
  constructor
  · by_cases near : 2 * 2 ^ 52 < 2 ^ k
    · rw [Nat.add_mul, ← value, Nat.one_mul] at rounded
      have same := rounded.eq_of_near low high near
      omega
    · have places : 2 ^ k ≤ 2 ^ 53 := Nat.le_of_not_lt near
      have small : n < 2 ^ 54 := by
        apply Nat.lt_of_mul_lt_mul_right (a := 2 ^ 52)
        calc n * 2 ^ 52 = m * 2 ^ k := value.symm
          _ < 2 ^ 53 * 2 ^ 53 := Nat.mul_lt_mul_of_lt_of_le high places (by decide)
          _ = 2 ^ 54 * 2 ^ 52 := by norm_num
      have less : (n + 1) * 2 ^ 52 < 2 ^ 52 * 2 ^ 56 := by omega
      have le := rounded.le_of_lt (by decide) less
      omega
  · intro small
    have same := rounded.eq_of_le small
    omega

/-- Counting toward zero, where rounding does not pass the double that was started from. -/
theorem Rounded.previous {m n k v : Nat} (rounded : Rounded (n * 2 ^ 52) (v * 2 ^ 52))
    (high : m < 2 ^ 53) (value : m * 2 ^ k = (n + 1) * 2 ^ 52) :
    v ≤ n + 1 ∧ (n ≤ 2 ^ 53 → v = n) := by
  constructor
  · have le := rounded.le_of_lt (j := k) high (by omega)
    omega
  · intro small
    have same := rounded.eq_of_le small
    omega

/-- Adding one to a whole number gives a whole number: the next one, as long as there is a double
for it, and far out one that is no farther from zero. -/
theorem Exact.add_one {u : UnpackedFloat} {n : Int} (exact : Exact u n) :
    ∃ v, Exact (UnpackedFloat.add Format.binary64 u one) v ∧
      v.natAbs ≤ max n.natAbs (2 ^ 56) ∧ (-2 ^ 53 ≤ n → n < 2 ^ 53 → v = n + 1) := by
  cases exact with
  | zero s => exact ⟨1, exact_one, by decide, fun _ _ => rfl⟩
  | @finite s m e positive n low high least value =>
    rw [add_one_eq least value]
    cases s with
    | positive =>
      show ∃ v, Exact (UnpackedFloat.normalize _ (((n + 1 : Nat) : Int) * 2 ^ 52) _ _) v ∧ _ ∧ _
      rw [normalize_of_pos (by omega), Int.toNat_natCast]
      obtain ⟨v, sum, rounded⟩ := exists_round_whole (n := n + 1) .positive (by omega)
      obtain ⟨bound, next⟩ := rounded.next low high value
      refine ⟨v, sum, bound, fun _ small => ?_⟩
      exact congrArg Int.ofNat (next (Int.ofNat_lt.mp small))
    | negative =>
      obtain ⟨k, rfl⟩ : ∃ k, n = k + 1 := by
        refine Nat.exists_eq_add_one.mpr (Nat.pos_of_mul_pos_right (b := 2 ^ 52) ?_)
        rw [← value]
        exact Nat.mul_pos positive (Nat.two_pow_pos _)
      have sum : Sign.apply .negative (k + 1 : Nat) + 1 = -(k : Int) := by
        show -((k + 1 : Nat) : Int) + 1 = -(k : Int)
        omega
      rw [sum]
      cases k with
      | zero => exact ⟨0, .zero _, by decide, fun _ _ => by decide⟩
      | succ k =>
        rw [normalize_of_neg (by omega), Int.neg_neg, Int.toNat_natCast]
        obtain ⟨v, sum, rounded⟩ := exists_round_whole (n := k + 1) .negative (by omega)
        obtain ⟨bound, previous⟩ := rounded.previous high value
        refine ⟨-(v : Int), sum, ?_, fun small _ => ?_⟩
        · show (-(v : Int)).natAbs ≤ max (-((k + 1 + 1 : Nat) : Int)).natAbs (2 ^ 56)
          omega
        · change -2 ^ 53 ≤ -((k + 1 + 1 : Nat) : Int) at small
          show -(v : Int) = -((k + 1 + 1 : Nat) : Int) + 1
          have same := previous (by omega)
          omega

/-- Whole numbers of moderate size survive packing. -/
theorem Exact.unpack_pack {u : UnpackedFloat} {n : Int} (exact : Exact u n)
    (bounded : n.natAbs < 2 ^ 100) : (Float.Model.pack u).unpack = u := by
  cases exact with
  | zero s => cases s <;> rfl
  | @finite s m e positive n low high least value =>
    refine CountingLemmas.unpack_pack low high (by omega) ?_ positive
    by_contra large
    have magnitude : (s.apply n).natAbs = n := by cases s <;> simp [Sign.apply]
    have far : 2 ^ 152 ≤ 2 ^ (e + 52).toNat := Nat.pow_le_pow_right (by decide) (by omega)
    have : 2 ^ 52 * 2 ^ (e + 52).toNat ≤ n * 2 ^ 52 := value ▸ Nat.mul_le_mul_right _ low
    omega

end CountingLemmas

open CountingLemmas

/-- Counting on by one in doubles, from a whole number that is printed in plain digits. -/
theorem Denotes.add_one {x : Float} {n : Int} (number : Denotes x n)
    (bounded : n.natAbs < 10 ^ 21) :
    ∃ u, Denotes (x + 1) u ∧ u.natAbs < 10 ^ 21 ∧ (-2 ^ 53 ≤ n → n < 2 ^ 53 → u = n + 1) := by
  obtain ⟨u, sum, size, next⟩ := (denotes_iff.mp number).add_one
  have small : u.natAbs < 10 ^ 21 := by omega
  refine ⟨u, denotes_iff.mpr ?_, small, next⟩
  show Exact (Float.Model.pack
    (Float.Model.UnpackedFloat.add .binary64 x.toModel.unpack one)).unpack u
  rwa [sum.unpack_pack (by omega)]

end Folio
