import Folio.Settings.Validation
import Mathlib.Algebra.Ring.Nat

/-!
# Whole numbers among the doubles

Limits are counted in doubles, and comparing doubles goes by their parts: sign, exponent and
significand. Here the parts are put together again, so that what is checked of a double can be said
of the number it stands for.

Main result: `Settings.isPositiveInteger_iff`.
-/

namespace Folio

/-- `Denotes x n`: the double `x` is the whole number `n`. -/
def Denotes (x : Float) (n : Int) : Prop :=
  ∃ b, Binary.ofFloat? x = some b ∧ b.isWhole = true ∧ b.trunc = n

namespace WholeDoublesLemmas

open Float.Model Float.Model.UnpackedFloat

def sign (b : Binary) : Sign := if b.negative then .negative else .positive

theorem mantissa_toNat (x : Float) :
    (@unpackMantissa Format.binary64 x.toBits.toBitVec).toNat =
      x.toBits.toNat % Binary.fractionEnd := by
  simp [unpackMantissa, BitVec.extractLsb, Binary.fractionEnd]

theorem exponent_toNat (x : Float) :
    (@unpackExponent Format.binary64 x.toBits.toBitVec).toNat =
      x.toBits.toNat / Binary.fractionEnd % 0x800 := by
  simp [unpackExponent, BitVec.extractLsb, Nat.shiftRight_eq_div_pow, Binary.fractionEnd]

theorem sign_ofBitVec (x : Float) :
    Sign.ofBitVec (@unpackSign Format.binary64 x.toBits.toBitVec) =
      if decide (0x8000000000000000 ≤ x.toBits.toNat) = true then .negative else .positive := by
  have bit : (@unpackSign Format.binary64 x.toBits.toBitVec).toNat =
      x.toBits.toNat / 0x8000000000000000 % 2 := by
    show (x.toBits.toBitVec.extractLsb 63 63).toNat = _
    simp [BitVec.extractLsb, Nat.shiftRight_eq_div_pow]
  have bounded : x.toBits.toNat < 0x10000000000000000 := x.toBits.toNat_lt
  have clear : @unpackSign Format.binary64 x.toBits.toBitVec = 0#1 ↔
      ¬ 0x8000000000000000 ≤ x.toBits.toNat := by
    rw [← BitVec.toNat_inj, bit, BitVec.toNat_ofNat]
    omega
  rw [Sign.ofBitVec]
  split <;> simp_all

/-- The exact value of a double, by what its exponent is stored as. -/
theorem ofFloat?_cases {x : Float} {b : Binary} (value : Binary.ofFloat? x = some b) :
    x.toBits.toNat / Binary.fractionEnd % 0x800 = 0 ∧
      b = ⟨decide (0x8000000000000000 ≤ x.toBits.toNat), x.toBits.toNat % Binary.fractionEnd,
        -1074⟩ ∨
    (x.toBits.toNat / Binary.fractionEnd % 0x800 ≠ 0 ∧
      x.toBits.toNat / Binary.fractionEnd % 0x800 ≠ 2047) ∧
      b = ⟨decide (0x8000000000000000 ≤ x.toBits.toNat),
        x.toBits.toNat % Binary.fractionEnd + Binary.fractionEnd,
        ((x.toBits.toNat / Binary.fractionEnd % 0x800 : Nat) : Int) - 1075⟩ := by
  unfold Binary.ofFloat? at value
  dsimp only at value
  split at value
  · cases value
  next subnormal =>
    cases value
    exact .inl ⟨subnormal, rfl⟩
  next notTop notLow =>
    cases value
    exact .inr ⟨⟨notLow, notTop⟩, rfl⟩

theorem finite_congr {s s' : Sign} {m m' : Nat} {e e' : Int} {positive : 0 < m}
    {positive' : 0 < m'} (signs : s = s') (significands : m = m') (exponents : e = e') :
    UnpackedFloat.finite s m e positive = .finite s' m' e' positive' := by
  subst signs significands exponents
  rfl

/-- A double is unpacked into the parts of its exact value. -/
theorem unpack_of_ofFloat? {x : Float} {b : Binary} (value : Binary.ofFloat? x = some b) :
    b.significand = 0 ∧ x.toModel.unpack = .zero (sign b) ∨
    ∃ positive, x.toModel.unpack = .finite (sign b) b.significand b.exponent positive := by
  have mantissa := mantissa_toNat x
  have exponent := exponent_toNat x
  have allOnes : @unpackExponent Format.binary64 x.toBits.toBitVec = -1#11 ↔
      x.toBits.toNat / Binary.fractionEnd % 0x800 = 2047 := by
    rw [← exponent]
    exact BitVec.toNat_inj.symm
  have noBits : @unpackExponent Format.binary64 x.toBits.toBitVec = 0#11 ↔
      x.toBits.toNat / Binary.fractionEnd % 0x800 = 0 := by
    rw [← exponent]
    exact BitVec.toNat_inj.symm
  have noFraction : @unpackMantissa Format.binary64 x.toBits.toBitVec = 0#52 ↔
      x.toBits.toNat % Binary.fractionEnd = 0 := by
    rw [← mantissa]
    exact BitVec.toNat_inj.symm
  obtain ⟨subnormal, rfl⟩ | ⟨⟨notLow, notTop⟩, rfl⟩ := ofFloat?_cases value
  · have notTop := mt allOnes.mp (by omega)
    by_cases none : x.toBits.toNat % Binary.fractionEnd = 0
    · refine .inl ⟨none, (if_neg notTop).trans ((if_pos (noBits.mpr subnormal)).trans ?_)⟩
      exact (dif_pos (noFraction.mpr none)).trans (congrArg UnpackedFloat.zero (sign_ofBitVec x))
    · refine .inr ⟨Nat.pos_of_ne_zero none,
        (if_neg notTop).trans ((if_pos (noBits.mpr subnormal)).trans ?_)⟩
      refine (dif_neg (mt noFraction.mp none)).trans (finite_congr (sign_ofBitVec x) mantissa ?_)
      exact congrArg (fun n : Nat => (n : Int) - 1075 + 1) (exponent.trans subnormal)
  · have leading : (1#1 ++ @unpackMantissa Format.binary64 x.toBits.toBitVec).toNat =
        x.toBits.toNat % Binary.fractionEnd + Binary.fractionEnd := by
      rw [BitVec.toNat_append, ← Nat.shiftLeft_add_eq_or_of_lt (BitVec.isLt _), mantissa,
        Nat.add_comm]
      rfl
    refine .inr ⟨Nat.add_pos_right _ (by decide),
      (if_neg (mt allOnes.mp notTop)).trans ((if_neg (mt noBits.mp notLow)).trans ?_)⟩
    exact finite_congr (sign_ofBitVec x) leading
      (congrArg (fun n : Nat => (n : Int) - 1075) exponent)

/-- Either the significand is as long as it can be, or the exponent is the least there is. -/
def Normal (b : Binary) : Prop :=
  b.significand < 2 ^ 53 ∧
    (2 ^ 52 ≤ b.significand ∨ b.exponent = -1074 ∧ b.significand < 2 ^ 52)

theorem normal_of_ofFloat? {x : Float} {b : Binary} (value : Binary.ofFloat? x = some b) :
    Normal b := by
  have fraction : x.toBits.toNat % Binary.fractionEnd < 2 ^ 52 := Nat.mod_lt _ (by decide)
  unfold Normal
  obtain ⟨subnormal, rfl⟩ | ⟨_, rfl⟩ := ofFloat?_cases value
  · exact ⟨by simp only; omega, .inr ⟨rfl, fraction⟩⟩
  · simp only [Binary.fractionEnd] at fraction ⊢
    omega

theorem floor_pos_iff {b : Binary} (normal : Normal b) : 0 < b.floor ↔ -52 ≤ b.exponent := by
  obtain ⟨short, long | ⟨least, low⟩⟩ := normal
  · unfold Binary.floor
    split
    next up => exact iff_of_true (Nat.mul_pos (by omega) (Nat.two_pow_pos _)) (by omega)
    next down =>
      have fits : 2 ^ (-b.exponent).toNat ≤ b.significand ↔ (-b.exponent).toNat ≤ 52 := by
        constructor
        · intro le
          have lt := Nat.lt_of_le_of_lt le short
          exact Nat.le_of_lt_succ ((Nat.pow_lt_pow_iff_right (by decide)).mp lt)
        · intro le
          exact Nat.le_trans (Nat.pow_le_pow_right (by decide) le) long
      rw [Nat.pow_eq, Nat.div_pos_iff, and_iff_right (Nat.two_pow_pos _), fits]
      omega
  · have far : 52 < (-b.exponent).toNat := by omega
    have nothing : b.floor = 0 := by
      rw [Binary.floor, if_neg (by omega), Nat.pow_eq]
      exact Nat.div_eq_of_lt (Nat.lt_trans low (Nat.pow_lt_pow_right (by decide) far))
    omega

/-- One as a double, compared with another. -/
theorem one_le_iff_unpack (x : Float) :
    (1 : Float) ≤ x ↔
      UnpackedFloat.le (.finite .positive (2 ^ 52) (-52) (by decide)) x.toModel.unpack = true := by
  change decide ((1 : Float).toModel.unpack.le x.toModel.unpack = true) = true ↔ _
  rw [decide_eq_true_iff]
  rfl

/-- Comparing with one as doubles is comparing the whole part with one. -/
theorem one_le_iff {x : Float} {b : Binary} (value : Binary.ofFloat? x = some b) :
    (1 : Float) ≤ x ↔ 1 ≤ b.trunc := by
  have normal := normal_of_ofFloat? value
  have whole := floor_pos_iff normal
  unfold Normal at normal
  rw [one_le_iff_unpack]
  obtain ⟨nothing, unpacked⟩ | ⟨positive, unpacked⟩ := unpack_of_ofFloat? value
  · have zero : b.trunc = 0 := by simp [Binary.trunc, Binary.floor, nothing]
    rw [unpacked, zero]
    show Ordering.gt.isLE = true ↔ (1 : Int) ≤ 0
    decide
  · rw [unpacked, sign, Binary.trunc]
    cases b.negative with
    | true =>
      show Ordering.gt.isLE = true ↔ 1 ≤ -(b.floor : Int)
      exact iff_of_false (by decide) (by omega)
    | false =>
      -- Exponents are compared first, which is right because normal significands are equally long.
      have order : ((compare (-52) b.exponent).then (compare (2 ^ 52) b.significand)).isLE = true ↔
          -52 < b.exponent ∨ -52 = b.exponent ∧ 2 ^ 52 ≤ b.significand := by
        rw [Ordering.isLE_then_iff_or, Int.compare_eq_lt, Int.compare_eq_eq, Nat.isLE_compare]
      change ((compare (-52) b.exponent).then (compare (2 ^ 52) b.significand)).isLE = true ↔
        1 ≤ (b.floor : Int)
      rw [order]
      omega

end WholeDoublesLemmas

open WholeDoublesLemmas

/-- The doubles that are accepted as limits are the whole numbers from one on. -/
theorem Settings.isPositiveInteger_iff {x : Float} :
    isPositiveInteger x = true ↔ ∃ n : Int, 1 ≤ n ∧ Denotes x n := by
  rw [isPositiveInteger, isInteger, Bool.and_eq_true, decide_eq_true_iff]
  constructor
  · rintro ⟨integer, positive⟩
    split at integer
    next b value => exact ⟨b.trunc, (one_le_iff value).mp positive, b, value, integer, rfl⟩
    next => cases integer
  · rintro ⟨n, positive, b, value, integer, rfl⟩
    rw [value]
    exact ⟨integer, (one_le_iff value).mpr positive⟩

end Folio
