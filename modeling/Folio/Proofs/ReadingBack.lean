import Folio.Proofs.Counting

/-!
# Printed numbers read back

A double is printed with the fewest digits that read back as it, so the digits need not be those of
the number itself. For whole doubles they are still the digits of a whole number, up to where an
exponent would be written, and that number belongs to one double only.

1. What reads back as a double lies between two ends, and the ends of different doubles keep apart,
   `Full.highEnd_le`.
2. The search goes over grids of powers of ten and stops at the whole numbers at the latest,
   `Full.shortest`.
3. What is found is written in plain digits, `write_plain`.

Main results: `exists_numberText_eq` and `numberText_eq_iff`.
-/

namespace Folio

namespace ReadingBackLemmas

open CountingLemmas

/-! ## Neighbouring doubles -/

/-- A significand of full length, and no place behind the fifty-second after the point. -/
structure Full (b : Binary) : Prop where
  long : 2 ^ 52 ≤ b.significand
  short : b.significand < 2 ^ 53
  least : -52 ≤ b.exponent

/-- How far the last place is above the fifty-second after the point. -/
def places (b : Binary) : Nat := (b.exponent + 52).toNat

/-- How far below `b` the decimals that read back begin, in quarters of its last place. -/
def lowGap (b : Binary) : Nat := if Decimal.isBinadeStart b then 1 else 2

/-- Where they begin, in quarters of the fifty-second place. -/
def lowEnd (b : Binary) : Nat := (4 * b.significand - lowGap b) * 2 ^ places b

/-- Where they end. -/
def highEnd (b : Binary) : Nat := (4 * b.significand + 2) * 2 ^ places b

/-- The whole number `c` reads back as `b`. The ends do so if the significand is even. -/
def ReadsAs (b : Binary) (c : Nat) : Prop :=
  if b.significand % 2 = 0 then lowEnd b ≤ c * 2 ^ 54 ∧ c * 2 ^ 54 ≤ highEnd b
  else lowEnd b < c * 2 ^ 54 ∧ c * 2 ^ 54 < highEnd b

variable {b b' : Binary}

theorem Full.lowGap_eq (full : Full b) : lowGap b = if b.significand = 2 ^ 52 then 1 else 2 := by
  have least := full.least
  have start : Decimal.isBinadeStart b = true ↔ b.significand = 2 ^ 52 := by
    rw [Decimal.isBinadeStart, Bool.and_eq_true, beq_iff_eq, decide_eq_true_eq]
    exact and_iff_left (by omega)
  simp only [lowGap, start]

theorem lowGap_le (b : Binary) : lowGap b ≤ 2 := by
  unfold lowGap
  split <;> decide

theorem lowGap_pos (b : Binary) : 0 < lowGap b := by
  unfold lowGap
  split <;> decide

/-- Full significands are equally long, so the larger number has the higher last place. -/
theorem Full.places_le (full : Full b) (full' : Full b')
    (le : b.significand * 2 ^ places b ≤ b'.significand * 2 ^ places b') :
    places b ≤ places b' := by
  have bound : 2 ^ (52 + places b) < 2 ^ (53 + places b') := by
    rw [Nat.pow_add, Nat.pow_add 2 53]
    calc 2 ^ 52 * 2 ^ places b ≤ b.significand * 2 ^ places b := Nat.mul_le_mul_right _ full.long
      _ ≤ b'.significand * 2 ^ places b' := le
      _ < 2 ^ 53 * 2 ^ places b' := Nat.mul_lt_mul_of_pos_right full'.short (Nat.two_pow_pos _)
  have := (Nat.pow_lt_pow_iff_right (by decide)).mp bound
  omega

theorem Full.eq_of_value (full : Full b) (full' : Full b')
    (same : b.significand * 2 ^ places b = b'.significand * 2 ^ places b') :
    b.significand = b'.significand ∧ b.exponent = b'.exponent := by
  have place : places b = places b' :=
    Nat.le_antisymm (full.places_le full' (Nat.le_of_eq same))
      (full'.places_le full (Nat.le_of_eq same.symm))
  have := full.least
  have := full'.least
  unfold places at place
  refine ⟨?_, by omega⟩
  rw [places, places, place] at same
  exact Nat.eq_of_mul_eq_mul_right (Nat.two_pow_pos _) same

theorem Full.lowEnd_lt (full : Full b) : lowEnd b < 4 * (b.significand * 2 ^ places b) := by
  rw [lowEnd, ← Nat.mul_assoc]
  refine Nat.mul_lt_mul_of_pos_right ?_ (Nat.two_pow_pos _)
  have := full.long
  have := lowGap_pos b
  omega

theorem lt_highEnd (b : Binary) : 4 * (b.significand * 2 ^ places b) < highEnd b := by
  rw [highEnd, ← Nat.mul_assoc]
  exact Nat.mul_lt_mul_of_pos_right (by omega) (Nat.two_pow_pos _)

/-- What reads back as a double ends before what reads back as a larger one begins. The two meet
at most in a point, and then one of the significands is odd. -/
theorem Full.highEnd_le (full : Full b) (full' : Full b')
    (less : b.significand * 2 ^ places b < b'.significand * 2 ^ places b') :
    highEnd b ≤ lowEnd b' ∧
      (b.significand % 2 = 0 → b'.significand % 2 = 0 → highEnd b < lowEnd b') := by
  obtain ⟨k, further⟩ := Nat.exists_eq_add_of_le (full.places_le full' (Nat.le_of_lt less))
  have positive := Nat.two_pow_pos (places b)
  have above : lowEnd b' = (4 * b'.significand - lowGap b') * 2 ^ k * 2 ^ places b := by
    rw [lowEnd, further, Nat.pow_add, Nat.mul_comm (2 ^ places b), Nat.mul_assoc]
  rw [further, Nat.pow_add, Nat.mul_comm (2 ^ places b), ← Nat.mul_assoc] at less
  have less := Nat.lt_of_mul_lt_mul_right less
  rw [above, highEnd, Nat.mul_le_mul_right_iff positive, Nat.mul_lt_mul_right positive]
  have long := full.long
  have short := full.short
  have long' := full'.long
  have gap := full'.lowGap_eq
  cases k with
  | zero =>
    -- In one binade the numbers are the significands.
    rw [Nat.pow_zero, Nat.mul_one] at less ⊢
    rw [if_neg (by omega)] at gap
    omega
  | succ k =>
    have two : 2 ≤ 2 ^ (k + 1) := Nat.le_self_pow (by omega) 2
    have bound : 2 ^ 54 - 1 ≤ 4 * b'.significand - lowGap b' := by
      split at gap <;> omega
    have := Nat.mul_le_mul bound two
    omega

/-- A whole number reads back as one double only. -/
theorem ReadsAs.unique {c : Nat} (full : Full b) (full' : Full b') (reads : ReadsAs b c)
    (reads' : ReadsAs b' c) : b.significand * 2 ^ places b = b'.significand * 2 ^ places b' := by
  have apart {b b' : Binary} (full : Full b) (full' : Full b') (reads : ReadsAs b c)
      (reads' : ReadsAs b' c) :
      ¬ b.significand * 2 ^ places b < b'.significand * 2 ^ places b' := by
    intro less
    obtain ⟨ends, strictly⟩ := full.highEnd_le full' less
    unfold ReadsAs at reads reads'
    split at reads <;> split at reads' <;> omega
  exact Nat.le_antisymm (Nat.le_of_not_lt (apart full' full reads' reads))
    (Nat.le_of_not_lt (apart full full' reads reads'))

/-- Below a double, everything that reads back does so as a number below it. -/
theorem ReadsAs.lt {c n : Nat} (full : Full b) (full' : Full b') (reads : ReadsAs b c)
    (value : b'.significand * 2 ^ places b' = n * 2 ^ 52)
    (less : b.significand * 2 ^ places b < b'.significand * 2 ^ places b') : c < n := by
  obtain ⟨ends, -⟩ := full.highEnd_le full' less
  have below := full'.lowEnd_lt
  have most : c * 2 ^ 54 ≤ highEnd b := by
    unfold ReadsAs at reads
    split at reads <;> omega
  omega

/-- A whole double reads back as itself. -/
theorem Full.readsAs {n : Nat} (full : Full b)
    (value : b.significand * 2 ^ places b = n * 2 ^ 52) : ReadsAs b n := by
  have low := full.lowEnd_lt
  have high := lt_highEnd b
  unfold ReadsAs
  split <;> omega

/-! ## Decimals on a grid -/


/-- What quarters of the last place of `b` are multiplied with to be compared with decimals. -/
def scale (b : Binary) (grid : Int) : Nat :=
  2 ^ (b.exponent - 2).toNat * 10 ^ (-grid).toNat

/-- What a step of the grid is multiplied with. -/
def unit (b : Binary) (grid : Int) : Nat :=
  2 ^ (-(b.exponent - 2)).toNat * 10 ^ grid.toNat

/-- The `c`-th point of the grid reads back as `b`. -/
def OnGrid (b : Binary) (grid : Int) (c : Nat) : Prop :=
  if b.significand % 2 = 0 then
    (4 * b.significand - lowGap b) * scale b grid ≤ c * unit b grid ∧
      c * unit b grid ≤ (4 * b.significand + 2) * scale b grid
  else
    (4 * b.significand - lowGap b) * scale b grid < c * unit b grid ∧
      c * unit b grid < (4 * b.significand + 2) * scale b grid

/-- The grid point that is found reads back, and one is found if the point below does. -/
theorem onGrid?_cases (b : Binary) (grid : Int) :
    (∃ c, Decimal.onGrid? b grid = some ⟨c, grid⟩ ∧ OnGrid b grid c) ∨
      Decimal.onGrid? b grid = none ∧
        ¬ OnGrid b grid (4 * b.significand * scale b grid / unit b grid) := by
  have test (c : Nat) : (if (b.significand % 2 == 0) = true then
      decide ((4 * b.significand - lowGap b) * scale b grid ≤
        c * unit b grid ∧ c * unit b grid ≤ (4 * b.significand + 2) * scale b grid)
      else decide ((4 * b.significand - lowGap b) * scale b grid <
        c * unit b grid ∧ c * unit b grid < (4 * b.significand + 2) * scale b grid)) = true ↔
      OnGrid b grid c := by
    unfold OnGrid
    by_cases even : b.significand % 2 = 0
    · rw [if_pos even, if_pos (beq_iff_eq.mpr even), decide_eq_true_iff]
    · rw [if_neg even, if_neg (mt beq_iff_eq.mp even), decide_eq_true_iff]
  unfold Decimal.onGrid?
  simp only
  split
  next below above =>
    refine .inl ⟨_, rfl, ?_⟩
    split
    · exact (test _).mp below
    · exact (test _).mp above
  next below _ => exact .inl ⟨_, rfl, (test _).mp below⟩
  next _ above => exact .inl ⟨_, rfl, (test _).mp above⟩
  next below _ =>
    refine .inr ⟨rfl, fun reads => ?_⟩
    exact Bool.false_ne_true (below.symm.trans ((test _).mpr reads))

/-- On a grid of whole numbers both are counted in quarters of the fifty-second place. -/
theorem Full.exists_common (full : Full b) (g : Nat) :
    ∃ f, scale b g * 2 ^ f = 2 ^ places b ∧ unit b g * 2 ^ f = 10 ^ g * 2 ^ 54 := by
  have least := full.least
  refine ⟨(min 54 (b.exponent + 52)).toNat, ?_, ?_⟩
  · have whole : (-(g : Int)).toNat = 0 := by omega
    rw [scale, whole, Nat.pow_zero, Nat.mul_one, ← Nat.pow_add, places]
    congr 1
    omega
  · rw [unit, Int.toNat_natCast, Nat.mul_right_comm, ← Nat.pow_add, Nat.mul_comm]
    congr 2
    omega

theorem Full.onGrid_iff (full : Full b) {g c : Nat} : OnGrid b g c ↔ ReadsAs b (c * 10 ^ g) := by
  obtain ⟨f, scaled, stepped⟩ := full.exists_common g
  have positive := Nat.two_pow_pos f
  have left (x : Nat) : x * 2 ^ places b = x * scale b g * 2 ^ f := by
    rw [Nat.mul_assoc, scaled]
  have right : c * 10 ^ g * 2 ^ 54 = c * unit b g * 2 ^ f := by
    rw [Nat.mul_assoc, ← stepped, ← Nat.mul_assoc]
  simp only [OnGrid, ReadsAs, lowEnd, highEnd, left, right, Nat.mul_le_mul_right_iff positive,
    Nat.mul_lt_mul_right positive]

/-- The first hit is at or before any given one. -/
theorem findSome?_range_of_hit {α : Type} {f : Nat → Option α} {j k : Nat} (inside : j < k)
    (hit : (f j).isSome) : ∃ i ≤ j, ∃ d, f i = some d ∧ (List.range k).findSome? f = some d := by
  obtain ⟨rest, rfl⟩ := Nat.exists_eq_add_of_lt inside
  have first : ((List.range (j + 1)).findSome? f).isSome :=
    List.findSome?_isSome_iff.mpr ⟨j, List.mem_range.mpr (Nat.lt_succ_self j), hit⟩
  obtain ⟨d, found⟩ := Option.isSome_iff_exists.mp first
  obtain ⟨i, member, same⟩ := List.exists_of_findSome?_eq_some found
  refine ⟨i, Nat.le_of_lt_succ (List.mem_range.mp member), d, same, ?_⟩
  rw [Nat.add_right_comm, List.range_add, List.findSome?_append, found]
  rfl

/-- The number itself is on the grid of whole numbers. -/
theorem Full.isSome_onGrid?_zero {n : Nat} (full : Full b)
    (value : b.significand * 2 ^ places b = n * 2 ^ 52) : (Decimal.onGrid? b (0 : Nat)).isSome := by
  obtain ⟨c, found, -⟩ | ⟨-, missing⟩ := onGrid?_cases b (0 : Nat)
  · rw [found]
    rfl
  · have below : 4 * b.significand * scale b (0 : Nat) / unit b (0 : Nat) = n := by
      obtain ⟨f, scaled, stepped⟩ := full.exists_common 0
      have step : 0 < unit b (0 : Nat) := by
        unfold unit
        positivity
      refine Nat.div_eq_of_eq_mul_left step (Nat.eq_of_mul_eq_mul_right (Nat.two_pow_pos f) ?_)
      rw [Nat.mul_assoc, scaled, Nat.mul_assoc n, stepped, Nat.mul_assoc 4, value]
      omega
    rw [below, full.onGrid_iff, Nat.pow_zero, Nat.mul_one] at missing
    exact absurd (full.readsAs value) missing

/-- The shortest decimal of a whole double is whole and reads back as it. -/
theorem Full.shortest {n : Nat} (full : Full b)
    (value : b.significand * 2 ^ places b = n * 2 ^ 52) (floor : b.floor = n) (positive : 0 < n) :
    ∃ c g : Nat, Decimal.shortest b = ⟨c, g⟩ ∧ ReadsAs b (c * 10 ^ g) := by
  have size : Decimal.magnitude b = Decimal.countDigits n := by
    rw [Decimal.magnitude, floor, if_pos positive]
  obtain ⟨last, count⟩ : ∃ last, Decimal.countDigits n = last + 1 :=
    Nat.exists_eq_add_one.mpr Nat.length_toDigits_pos
  -- What is found with at most as many digits as the number has is on a grid of whole numbers.
  have sound {i : Nat} {d : Decimal} (few : i ≤ last)
      (found : Decimal.onGrid? b (Decimal.magnitude b - (i + 1 : Nat)) = some d) :
      ∃ c g : Nat, d = ⟨c, g⟩ ∧ ReadsAs b (c * 10 ^ g) := by
    have grid : Decimal.magnitude b - (i + 1 : Nat) = (last - i : Nat) := by omega
    rw [grid] at found
    obtain ⟨c, same, reads⟩ | ⟨missing, -⟩ := onGrid?_cases b (last - i : Nat)
    · rw [found] at same
      exact ⟨c, _, Option.some.inj same, full.onGrid_iff.mp reads⟩
    · rw [found] at missing
      cases missing
  unfold Decimal.shortest
  simp only
  by_cases small : last < 17
  · have zero : Decimal.magnitude b - (last + 1 : Nat) = (0 : Nat) := by omega
    obtain ⟨i, few, d, found, first⟩ := findSome?_range_of_hit
      (f := fun n => Decimal.onGrid? b (Decimal.magnitude b - (n + 1 : Nat))) small
      (by rw [zero]; exact full.isSome_onGrid?_zero value)
    rw [first]
    exact sound few found
  · cases first : (List.range 17).findSome? fun n =>
        Decimal.onGrid? b (Decimal.magnitude b - (n + 1 : Nat)) with
    | none => exact ⟨n, 0, by rw [floor]; rfl, by simpa using full.readsAs value⟩
    | some d =>
      obtain ⟨i, member, found⟩ := List.exists_of_findSome?_eq_some first
      exact sound (by have := List.mem_range.mp member; omega) found

/-! ## Plain digits -/

theorem toDigits_mul_pow {c : Nat} (positive : 0 < c) (g : Nat) :
    Nat.toDigits 10 (c * 10 ^ g) = Nat.toDigits 10 c ++ List.replicate g '0' := by
  induction g with
  | zero => simp
  | succ g ih =>
    have next : c * 10 ^ (g + 1) = 10 * (c * 10 ^ g) + 0 := by ring
    have zero : Nat.toDigits 10 0 = ['0'] := rfl
    rw [next, ← Nat.toDigits_append_toDigits (by decide) (by positivity) (by decide), ih, zero,
      List.append_assoc, List.replicate_succ']

/-- Digits are put together again from those that are kept and the zeros behind them. -/
theorem kept_append_zeros (digits : List Char) :
    (digits.reverse.dropWhile (· == '0')).reverse ++
      List.replicate (digits.length - (digits.reverse.dropWhile (· == '0')).reverse.length) '0' =
      digits := by
  have parts := List.takeWhile_append_dropWhile (p := (· == '0')) (l := digits.reverse)
  have zeros : (digits.reverse.takeWhile (· == '0')) =
      List.replicate (digits.reverse.takeWhile (· == '0')).length '0' := by
    refine List.eq_replicate_of_mem fun c member => ?_
    exact beq_iff_eq.mp (List.mem_takeWhile_imp (p := (· == '0')) member)
  have count : digits.length - (digits.reverse.dropWhile (· == '0')).reverse.length =
      (digits.reverse.takeWhile (· == '0')).length := by
    have := congrArg List.length parts
    rw [List.length_append, List.length_reverse] at this
    rw [List.length_reverse]
    omega
  rw [count, ← List.reverse_replicate, ← zeros, ← List.reverse_append, parts, List.reverse_reverse]

/-- A whole number of up to twenty-one digits is written with these digits. -/
theorem write_plain {c g : Nat} (positive : 0 < c) (bounded : c * 10 ^ g < 10 ^ 21) :
    Decimal.write Decimal.plainRange ⟨c, g⟩ = Nat.toDigits 10 (c * 10 ^ g) := by
  obtain ⟨kept, same⟩ :
      ∃ kept, ((Nat.toDigits 10 c).reverse.dropWhile (· == '0')).reverse = kept := ⟨_, rfl⟩
  have whole := kept_append_zeros (Nat.toDigits 10 c)
  have digits := (Nat.length_toDigits_le_iff (b := 10) (by decide) (by decide)).mpr bounded
  rw [toDigits_mul_pow positive, List.length_append, List.length_replicate] at digits
  have some : 0 < (Nat.toDigits 10 c).length := Nat.length_toDigits_pos
  have fewer : kept.length ≤ (Nat.toDigits 10 c).length := by
    have := congrArg List.length whole
    rw [same, List.length_append] at this
    omega
  rw [same] at whole
  simp only [Decimal.write, Decimal.significant, Decimal.plainRange, same]
  rw [if_pos (by omega), if_neg (by omega), if_pos (by omega), toDigits_mul_pow positive]
  have zeros : Decimal.zeros (g + ((Nat.toDigits 10 c).length - kept.length : Nat)) =
      List.replicate ((Nat.toDigits 10 c).length - kept.length) '0' ++ List.replicate g '0' := by
    rw [Decimal.zeros, List.replicate_append_replicate]
    congr 1
    omega
  rw [zeros, ← List.append_assoc, whole]

theorem ReadsAs.pos {c : Nat} (full : Full b) (reads : ReadsAs b c) : 0 < c := by
  have low : 0 < lowEnd b := by
    unfold lowEnd
    refine Nat.mul_pos ?_ (Nat.two_pow_pos _)
    have := full.long
    have := lowGap_le b
    omega
  unfold ReadsAs at reads
  split at reads <;> omega

/-- Ten to the twenty-first is a double, so what is below it is printed below it. -/
theorem ReadsAs.lt_plainEnd {c n : Nat} (full : Full b) (reads : ReadsAs b c)
    (value : b.significand * 2 ^ places b = n * 2 ^ 52) (bounded : n < 10 ^ 21) : c < 10 ^ 21 := by
  have end_full : Full ⟨false, 7629394531250000, 17⟩ := ⟨by decide, by decide, by decide⟩
  have end_value : 7629394531250000 * 2 ^ places ⟨false, 7629394531250000, 17⟩ =
      10 ^ 21 * 2 ^ 52 := by decide
  refine reads.lt full end_full end_value ?_
  rw [value, end_value]
  exact Nat.mul_lt_mul_of_pos_right bounded (by decide)

/-- A whole double is zero, or it has a full significand. -/
theorem full_of_denotes {x : Float} {n : Int} (number : Denotes x n) :
    ∃ b, Binary.ofFloat? x = some b ∧
      (b.significand = 0 ∧ n = 0 ∨
        Full b ∧ 0 < b.floor ∧ b.significand * 2 ^ places b = b.floor * 2 ^ 52 ∧
          n = if b.negative then -(b.floor : Int) else b.floor) := by
  obtain ⟨b, value, whole, rfl⟩ := number
  refine ⟨b, value, ?_⟩
  by_cases nothing : b.significand = 0
  · exact .inl ⟨nothing, by simp [Binary.trunc, Binary.floor, nothing]⟩
  · have positive := Nat.pos_of_ne_zero nothing
    obtain ⟨long, short, least⟩ := full_of_whole value whole positive
    exact .inr ⟨⟨long, short, least⟩, floor_pos_of_whole whole positive,
      (isWhole_and_floor_iff least).mp ⟨whole, rfl⟩, rfl⟩

theorem eq_of_signed (full : Full b) (full' : Full b') (positive : 0 < b.floor)
    (positive' : 0 < b'.floor) (value : b.significand * 2 ^ places b = b.floor * 2 ^ 52)
    (value' : b'.significand * 2 ^ places b' = b'.floor * 2 ^ 52)
    (same : (if b.negative then -(b.floor : Int) else b.floor) =
      if b'.negative then -(b'.floor : Int) else b'.floor) : b = b' := by
  obtain ⟨signs, floors⟩ : b.negative = b'.negative ∧ b.floor = b'.floor := by
    cases sign : b.negative <;> cases sign' : b'.negative <;>
      simp only [sign, sign', Bool.false_eq_true, if_true, if_false] at same
    · exact ⟨rfl, by omega⟩
    · exfalso
      omega
    · exfalso
      omega
    · exact ⟨rfl, by omega⟩
  obtain ⟨significands, exponents⟩ := full.eq_of_value full' (by rw [value, value', floors])
  cases b
  cases b'
  exact Binary.mk.injEq .. ▸ ⟨signs, significands, exponents⟩

/-- `PrintsAs n c`: the whole double `n` is printed with the digits of `c`, which read back. -/
def PrintsAs (n c : Int) : Prop :=
  n = 0 ∧ c = 0 ∨ ∃ b N C, Full b ∧ b.significand * 2 ^ places b = N * 2 ^ 52 ∧ ReadsAs b C ∧
    0 < C ∧ (n = N ∧ c = C ∨ n = -(N : Int) ∧ c = -(C : Int))

theorem PrintsAs.unique {n m c : Int} (first : PrintsAs n c) (second : PrintsAs m c) : n = m := by
  obtain ⟨rfl, rfl⟩ | ⟨b, N, C, full, value, reads, some, signs⟩ := first
  · obtain ⟨rfl, -⟩ | ⟨_, _, C', _, _, _, some', signs'⟩ := second
    · rfl
    · omega
  · obtain ⟨-, zero⟩ | ⟨b', N', C', full', value', reads', some', signs'⟩ := second
    · omega
    · have same : C = C' := by omega
      subst same
      have := reads.unique full full' reads'
      omega

end ReadingBackLemmas

open ReadingBackLemmas

theorem toString_natCast (n : Nat) : toString (n : Int) = String.ofList (Nat.toDigits 10 n) := by
  rw [Int.toString_eq_repr, Int.repr_eq_if, if_pos (Int.natCast_nonneg n), Int.toNat_natCast,
    Nat.repr_eq_ofList_toDigits]

theorem toString_neg_natCast {n : Nat} (positive : 0 < n) :
    toString (-(n : Int)) = String.ofList ('-' :: Nat.toDigits 10 n) := by
  rw [Int.toString_eq_repr, Int.repr_eq_if, if_neg (by omega), Int.neg_neg, Int.toNat_natCast,
    Nat.repr_eq_ofList_toDigits, ← List.singleton_append, String.ofList_append]

/-- A whole double below ten to the twenty-first is printed as a whole number that reads back. -/
theorem exists_numberText_eq {x : Float} {n : Int} (number : Denotes x n)
    (bounded : n.natAbs < 10 ^ 21) : ∃ c, numberText x = toString c ∧ PrintsAs n c := by
  obtain ⟨b, value, ⟨nothing, rfl⟩ | ⟨full, positive, parts, rfl⟩⟩ := full_of_denotes number
  · refine ⟨0, ?_, .inl ⟨rfl, rfl⟩⟩
    rw [numberText, value]
    exact if_pos nothing
  · obtain ⟨c, g, shortest, reads⟩ := full.shortest parts rfl positive
    have some := reads.pos full
    have below : b.floor < 10 ^ 21 := by split at bounded <;> omega
    have digits : Decimal.write Decimal.plainRange ⟨c, g⟩ = Nat.toDigits 10 (c * 10 ^ g) :=
      write_plain (Nat.pos_of_mul_pos_right some) (reads.lt_plainEnd full parts below)
    have nonzero : b.significand ≠ 0 := by have := full.long; omega
    simp only [numberText, value, if_neg nonzero, shortest, digits]
    cases b.negative with
    | false =>
      exact ⟨(c * 10 ^ g : Nat), (toString_natCast _).symm,
        .inr ⟨b, b.floor, c * 10 ^ g, full, parts, reads, some, .inl ⟨rfl, rfl⟩⟩⟩
    | true =>
      exact ⟨-(c * 10 ^ g : Nat), (toString_neg_natCast some).symm,
        .inr ⟨b, b.floor, c * 10 ^ g, full, parts, reads, some, .inr ⟨rfl, rfl⟩⟩⟩

/-- The text of a whole double goes by its number, and not by the sign of a zero. -/
theorem Denotes.numberText_congr {x y : Float} {n : Int} (first : Denotes x n)
    (second : Denotes y n) : numberText x = numberText y := by
  obtain ⟨b, value, parts⟩ := full_of_denotes first
  obtain ⟨b', value', parts'⟩ := full_of_denotes second
  simp only [numberText, value, value']
  obtain ⟨nothing, zero⟩ | ⟨full, positive, sum, same⟩ := parts
  · obtain ⟨nothing', -⟩ | ⟨-, positive', -, same'⟩ := parts'
    · rw [if_pos nothing, if_pos nothing']
    · exfalso
      split at same' <;> omega
  · obtain ⟨-, zero⟩ | ⟨full', positive', sum', same'⟩ := parts'
    · exfalso
      split at same <;> omega
    · rw [eq_of_signed full full' positive positive' sum sum' (same.symm.trans same')]

/-- Whole doubles below ten to the twenty-first have the same text only if they are the same
number. -/
theorem numberText_eq_iff {x y : Float} {n m : Int} (first : Denotes x n) (second : Denotes y m)
    (bounded : n.natAbs < 10 ^ 21) (bounded' : m.natAbs < 10 ^ 21) :
    numberText x = numberText y ↔ n = m := by
  constructor
  · intro same
    obtain ⟨c, text, prints⟩ := exists_numberText_eq first bounded
    obtain ⟨c', text', prints'⟩ := exists_numberText_eq second bounded'
    rw [text, text', Int.toString_eq_repr, Int.toString_eq_repr, Int.repr_inj] at same
    subst same
    exact prints.unique prints'
  · rintro rfl
    exact first.numberText_congr second

end Folio
