import Mathlib.Algebra.Order.Field.Power
import Mathlib.Algebra.Order.Ring.Abs
import Mathlib.Data.Rat.Cast.Order
import Mathlib.Tactic.FieldSimp
import Mathlib.Tactic.Linarith
import Mathlib.Tactic.Ring

/-! # Binary floating point numbers

    The numbers of binary64, less the bounds on the exponent: a
    significand of 53 bits times a power of two. `ofRatio` is the true
    division of integers, correctly rounded: no number is closer to the
    quotient (`ofRatio_nearest`). So it never passes a number on the other
    side of the quotient, and where the numbers are dense enough it
    compares with an integer as the quotient does (`ofRatio_le_iff`). -/

/-- `significand * 2 ^ exponent` -/
structure Binary64 where
  significand : Int
  exponent : Int
  bounded : significand.natAbs ≤ 2 ^ 53

namespace Binary64

def value (x : Binary64) : ℚ := x.significand * 2 ^ x.exponent

/-- The comparison with an integer, which rounds nothing. -/
def leInt (x : Binary64) (k : Int) : Bool :=
  x.significand * 2 ^ x.exponent.toNat ≤ k * 2 ^ (-x.exponent).toNat

theorem leInt_iff {x : Binary64} {k : Int} : x.leInt k = true ↔ x.value ≤ k := by
  unfold leInt value
  rw [decide_eq_true_eq]
  rcases Int.le_total 0 x.exponent with he | he
  · obtain ⟨e, he⟩ := Int.eq_ofNat_of_zero_le he
    rw [he, Int.toNat_natCast, Int.toNat_neg_natCast, pow_zero, mul_one, zpow_natCast]
    exact_mod_cast Iff.rfl
  · obtain ⟨e, he⟩ := Int.eq_ofNat_of_zero_le (Int.neg_nonneg_of_nonpos he)
    have he' : x.exponent = -(e : Int) := by omega
    rw [he', Int.toNat_neg_natCast, neg_neg, Int.toNat_natCast, pow_zero, mul_one, zpow_neg,
      zpow_natCast, ← div_eq_mul_inv, div_le_iff₀ (by positivity)]
    exact_mod_cast Iff.rfl

/-! ## Rounding a quotient to an integer -/

/-- The natural number nearest to `p / q`, a tie going to the even one. -/
def roundHalfEven (p q : Nat) : Nat :=
  if 2 * (p % q) < q then p / q
  else if q < 2 * (p % q) then p / q + 1
  else p / q + p / q % 2

theorem roundHalfEven_le (p q : Nat) : roundHalfEven p q ≤ p / q + 1 := by
  unfold roundHalfEven
  split
  · omega
  · split <;> omega

/-- It is off by a half at most. -/
theorem roundHalfEven_error {p q : Nat} (hq : 0 < q) :
    |(p : ℚ) / q - roundHalfEven p q| ≤ 1 / 2 := by
  have hq' : (0 : ℚ) < q := by exact_mod_cast hq
  have hdiv : (p : ℚ) / q = (p / q : ℕ) + ((p % q : ℕ) : ℚ) / q := by
    rw [div_eq_iff hq'.ne', add_mul, div_mul_cancel₀ _ hq'.ne']
    exact_mod_cast (Nat.div_add_mod' p q).symm
  have hfrac0 : (0 : ℚ) ≤ ((p % q : ℕ) : ℚ) / q := div_nonneg (Nat.cast_nonneg _) hq'.le
  have hfrac1 : ((p % q : ℕ) : ℚ) / q < 1 := by
    rw [div_lt_iff₀ hq', one_mul]
    exact_mod_cast Nat.mod_lt p hq
  -- the tests compare the fraction with a half
  have hlt : 2 * (p % q) < q ↔ ((p % q : ℕ) : ℚ) / q < 1 / 2 := by
    rw [div_lt_div_iff₀ hq' two_pos, one_mul, mul_comm]
    exact_mod_cast Iff.rfl
  have hgt : q < 2 * (p % q) ↔ 1 / 2 < ((p % q : ℕ) : ℚ) / q := by
    rw [div_lt_div_iff₀ two_pos hq', one_mul, mul_comm]
    exact_mod_cast Iff.rfl
  have heven : ((p / q % 2 : ℕ) : ℚ) = 0 ∨ ((p / q % 2 : ℕ) : ℚ) = 1 := by
    rcases Nat.mod_two_eq_zero_or_one (p / q) with h | h <;> simp [h]
  unfold roundHalfEven
  rw [hdiv, abs_le]
  split
  · next h =>
    rw [hlt] at h
    constructor <;> linarith
  · next h =>
    rw [hlt] at h
    split
    · next h' =>
      rw [hgt] at h'
      push_cast
      constructor <;> linarith
    · next h' =>
      rw [hgt] at h'
      push_cast
      rcases heven with heven | heven <;> rw [heven] <;> constructor <;> linarith

/-- So no integer is nearer. -/
theorem roundHalfEven_nearest {p q : Nat} (hq : 0 < q) (k : Int) :
    |(p : ℚ) / q - roundHalfEven p q| ≤ |(p : ℚ) / q - k| := by
  rcases eq_or_ne k (roundHalfEven p q : Int) with rfl | hne
  · rw [Int.cast_natCast]
  · have hone : (1 : ℚ) ≤ |(roundHalfEven p q : ℚ) - k| := by
      have hint : (1 : Int) ≤ |(roundHalfEven p q : Int) - k| :=
        Int.one_le_abs (sub_ne_zero.mpr hne.symm)
      exact_mod_cast hint
    have herr := roundHalfEven_error (p := p) hq
    have htri := abs_sub_le (roundHalfEven p q : ℚ) ((p : ℚ) / q) k
    rw [abs_sub_comm (roundHalfEven p q : ℚ) (p / q)] at htri
    linarith

/-! ## Division -/

/-- The quotient of natural numbers with 53 bits before the point: the
    numerator, shifted, and the bits of the quotient that go. -/
def shift (d : Nat) : Nat := d.log2 + 54

def spare (a d : Nat) : Nat := (a * 2 ^ shift d / d).log2 - 52

def roundedSignificand (a d : Nat) : Nat := roundHalfEven (a * 2 ^ shift d) (d * 2 ^ spare a d)

theorem roundedSignificand_le (a d : Nat) : roundedSignificand a d ≤ 2 ^ 53 := by
  refine le_trans (roundHalfEven_le _ _) ?_
  rw [← Nat.div_div_eq_div_mul]
  refine Nat.succ_le_of_lt (Nat.div_lt_of_lt_mul ?_)
  rw [← pow_add]
  refine lt_of_lt_of_le Nat.lt_log2_self (Nat.pow_le_pow_right two_pos ?_)
  unfold spare
  omega

/-- The true division `n / d` of integers. -/
def ofRatio (n : Int) (d : Nat) : Binary64 where
  significand :=
    if n < 0 then -(roundedSignificand n.natAbs d : Int) else roundedSignificand n.natAbs d
  exponent := (spare n.natAbs d : Int) - shift d
  bounded := by
    have hle := roundedSignificand_le n.natAbs d
    split <;> omega

section

variable {a d : Nat}

/-- The distance of the last bit. -/
def ulp (a d : Nat) : ℚ := 2 ^ ((spare a d : Int) - shift d)

theorem ulp_pos (a d : Nat) : 0 < ulp a d := zpow_pos two_pos _

/-- The quotient, in last bits. -/
theorem quotient_eq (a : Nat) (hd : 0 < d) :
    (a : ℚ) / d = ((a * 2 ^ shift d : ℕ) : ℚ) / (d * 2 ^ spare a d : ℕ) * ulp a d := by
  have hd' : (d : ℚ) ≠ 0 := by positivity
  unfold ulp
  rw [zpow_sub₀ two_ne_zero, zpow_natCast, zpow_natCast]
  push_cast
  field_simp

/-- The shifted quotient has 53 bits at least. -/
theorem two_pow_le_quotient (ha : 0 < a) (hd : 0 < d) : 2 ^ 53 ≤ a * 2 ^ shift d / d := by
  rw [Nat.le_div_iff_mul_le hd]
  calc 2 ^ 53 * d ≤ 2 ^ 53 * 2 ^ (d.log2 + 1) := Nat.mul_le_mul_left _ Nat.lt_log2_self.le
    _ = 2 ^ shift d := by rw [← pow_add, shift]; congr 1; omega
    _ ≤ a * 2 ^ shift d := Nat.le_mul_of_pos_left _ ha

/-- Of these the quotient in last bits keeps 53. -/
theorem two_pow_le_scaled (ha : 0 < a) (hd : 0 < d) :
    (2 : ℚ) ^ 52 ≤ ((a * 2 ^ shift d : ℕ) : ℚ) / (d * 2 ^ spare a d : ℕ) := by
  have hlarge := two_pow_le_quotient ha hd
  have hne : a * 2 ^ shift d / d ≠ 0 := by omega
  have hlog : 53 ≤ (a * 2 ^ shift d / d).log2 := (Nat.le_log2 hne).mpr hlarge
  have hpow : 2 ^ (52 + spare a d) ≤ a * 2 ^ shift d / d := by
    refine le_trans (Nat.pow_le_pow_right two_pos ?_) (Nat.log2_self_le hne)
    unfold spare
    omega
  rw [Nat.le_div_iff_mul_le hd, pow_add, mul_assoc, mul_comm (2 ^ spare a d) d] at hpow
  rw [le_div_iff₀ (by positivity)]
  exact_mod_cast hpow

/-- No number is nearer to a quotient of natural numbers: with the
    exponent of the result or a larger one it is a multiple of the last
    bit, with a smaller one it is not above the quotient's first 53 bits. -/
theorem nearest_natCast (hd : 0 < d) (y : Binary64) :
    |(a : ℚ) / d - roundedSignificand a d * ulp a d| ≤ |(a : ℚ) / d - y.value| := by
  have hu := ulp_pos a d
  have hq : 0 < d * 2 ^ spare a d := by positivity
  -- on multiples of the last bit, as on integers
  have hgrid : ∀ k : Int, |(a : ℚ) / d - roundedSignificand a d * ulp a d| ≤
      |(a : ℚ) / d - k * ulp a d| := by
    intro k
    rw [quotient_eq a hd, ← sub_mul, ← sub_mul, abs_mul, abs_mul]
    exact mul_le_mul_of_nonneg_right (roundHalfEven_nearest hq k) (abs_nonneg _)
  rcases Nat.eq_zero_or_pos a with rfl | ha
  · refine le_trans (hgrid 0) ?_
    rw [Nat.cast_zero, zero_div, Int.cast_zero, zero_mul, sub_zero, abs_zero]
    exact abs_nonneg _
  rcases Int.lt_or_le y.exponent ((spare a d : Int) - shift d) with he | he
  · have hy : y.value ≤ 2 ^ 52 * ulp a d := by
      have hsig : (y.significand : ℚ) ≤ 2 ^ 53 := by
        have hbound := y.bounded
        exact_mod_cast (by omega : y.significand ≤ 2 ^ 53)
      calc y.value ≤ 2 ^ 53 * 2 ^ y.exponent := mul_le_mul_of_nonneg_right hsig (by positivity)
        _ ≤ 2 ^ 53 * 2 ^ ((spare a d : Int) - shift d - 1) := by
          refine mul_le_mul_of_nonneg_left ?_ (by positivity)
          exact zpow_le_zpow_right₀ one_le_two (Int.le_sub_one_of_lt he)
        _ = 2 ^ 52 * ulp a d := by
          rw [zpow_sub_one₀ two_ne_zero]
          unfold ulp
          ring
    have hfloor : 2 ^ 52 * ulp a d ≤ a / d := by
      rw [quotient_eq a hd]
      exact mul_le_mul_of_nonneg_right (two_pow_le_scaled ha hd) hu.le
    -- the first number with this exponent lies between
    have hnear := hgrid (2 ^ 52)
    rw [Int.cast_pow, Int.cast_ofNat] at hnear
    refine le_trans hnear ?_
    rw [abs_of_nonneg (sub_nonneg.mpr hfloor)]
    exact le_trans (by linarith) (le_abs_self _)
  · obtain ⟨e, he⟩ := Int.le.dest he
    have hy : y.value = ((y.significand * 2 ^ e : Int) : ℚ) * ulp a d := by
      unfold value ulp
      rw [← he, zpow_add₀ two_ne_zero, zpow_natCast]
      push_cast
      ring
    rw [hy]
    exact hgrid _

end

def neg (x : Binary64) : Binary64 where
  significand := -x.significand
  exponent := x.exponent
  bounded := by rw [Int.natAbs_neg]; exact x.bounded

theorem value_neg (x : Binary64) : x.neg.value = -x.value := by
  unfold value neg
  push_cast
  ring

section

variable {n k : Int} {d : Nat}

theorem value_ofRatio (n : Int) (d : Nat) : (ofRatio n d).value =
    (if n < 0 then -1 else 1) * (roundedSignificand n.natAbs d * ulp n.natAbs d) := by
  show ((if n < 0 then _ else _ : Int) : ℚ) * ulp n.natAbs d = _
  split <;> push_cast <;> ring

/-- **Correct rounding.** No number is nearer to the quotient. -/
theorem ofRatio_nearest (hd : 0 < d) (y : Binary64) :
    |(n : ℚ) / d - (ofRatio n d).value| ≤ |(n : ℚ) / d - y.value| := by
  rw [value_ofRatio]
  rcases Int.lt_or_le n 0 with hn | hn
  · have hnear := nearest_natCast (a := n.natAbs) hd y.neg
    have hcast : ((n.natAbs : ℕ) : ℚ) = -n := by
      rw [Nat.cast_natAbs, abs_of_neg hn, Int.cast_neg]
    rw [value_neg, hcast, neg_div, ← neg_add', ← neg_sub', abs_neg, abs_neg] at hnear
    rwa [if_pos hn, neg_one_mul, sub_neg_eq_add]
  · have hnear := nearest_natCast (a := n.natAbs) hd y
    have hcast : ((n.natAbs : ℕ) : ℚ) = n := by
      rw [Nat.cast_natAbs, abs_of_nonneg hn]
    rw [hcast] at hnear
    rwa [if_neg (not_lt.mpr hn), one_mul]

/-- A number that the quotient does not pass is not passed by rounding. -/
theorem ofRatio_le_of_le (hd : 0 < d) {y : Binary64} (h : (n : ℚ) / d ≤ y.value) :
    (ofRatio n d).value ≤ y.value := by
  have hnear := ofRatio_nearest (n := n) hd y
  rw [abs_sub_comm _ y.value, abs_of_nonneg (sub_nonneg.mpr h), abs_sub_comm] at hnear
  have hle := le_abs_self ((ofRatio n d).value - n / d)
  linarith

def ofInt (k : Int) (h : k.natAbs ≤ 2 ^ 53) : Binary64 := ⟨k, 0, h⟩

theorem value_ofInt (k : Int) (h : k.natAbs ≤ 2 ^ 53) : (ofInt k h).value = k := by
  unfold value ofInt
  rw [zpow_zero, mul_one]

/-- The first number above an integer that needs `j` bits after the point. -/
def next (k : Int) (j : Nat) (h : k.natAbs * 2 ^ j + 1 ≤ 2 ^ 53) : Binary64 where
  significand := k * 2 ^ j + 1
  exponent := -j
  bounded := by
    refine le_trans (Int.natAbs_add_le _ _) ?_
    rwa [Int.natAbs_mul, Int.natAbs_pow]

theorem value_next (k : Int) (j : Nat) (h : k.natAbs * 2 ^ j + 1 ≤ 2 ^ 53) :
    (next k j h).value = k + (2 ^ j : ℚ)⁻¹ := by
  unfold value next
  rw [zpow_neg, zpow_natCast]
  push_cast
  field_simp

/-- Above an integer by a `d`-th, the quotient is nearer to the next
    number than to the integer, where the numbers are `2 ^ -j` apart. -/
theorem lt_ofRatio (hd : 0 < d) {j : Nat} (hj : d < 2 ^ (j + 1))
    (hk : k.natAbs * 2 ^ j + 1 ≤ 2 ^ 53) (h : k * d < n) : k < (ofRatio n d).value := by
  have hd' : (0 : ℚ) < d := by exact_mod_cast hd
  have hgap : (0 : ℚ) < (2 ^ j : ℚ)⁻¹ := inv_pos.mpr (pow_pos two_pos j)
  have habove : (k : ℚ) + 1 / d ≤ n / d := by
    rw [le_div_iff₀ hd', add_mul, one_div_mul_cancel hd'.ne']
    exact_mod_cast Int.add_one_le_of_lt h
  have hhalf : (2 ^ j : ℚ)⁻¹ < 2 * (1 / d) := by
    rw [mul_one_div, lt_div_iff₀ hd', inv_mul_lt_iff₀ (by positivity : (0 : ℚ) < 2 ^ j)]
    exact_mod_cast (pow_succ 2 j ▸ hj : d < 2 ^ j * 2)
  have hnear := ofRatio_nearest (n := n) hd (next k j hk)
  rw [value_next] at hnear
  by_contra hle
  rw [not_lt] at hle
  have hdist := le_abs_self ((n : ℚ) / d - (ofRatio n d).value)
  rcases le_total ((n : ℚ) / d) (k + (2 ^ j : ℚ)⁻¹) with hside | hside
  · rw [abs_sub_comm _ ((k : ℚ) + _), abs_of_nonneg (sub_nonneg.mpr hside)] at hnear
    linarith
  · rw [abs_of_nonneg (a := (n : ℚ) / d - (k + _)) (sub_nonneg.mpr hside)] at hnear
    linarith

/-- **Comparisons.** Where the numbers are `2 ^ -j` apart, a denominator
    below `2 ^ (j + 1)` leaves the quotient on its side of an integer. -/
theorem ofRatio_le_iff (hd : 0 < d) {j : Nat} (hj : d < 2 ^ (j + 1))
    (hk : k.natAbs * 2 ^ j + 1 ≤ 2 ^ 53) : (ofRatio n d).value ≤ k ↔ n ≤ k * d := by
  constructor
  · intro hle
    by_contra hlt
    rw [not_le] at hlt
    exact absurd (lt_ofRatio hd hj hk hlt) (not_lt.mpr hle)
  · intro hle
    have hk' : k.natAbs ≤ 2 ^ 53 := by
      have hmul := Nat.le_mul_of_pos_right k.natAbs (Nat.two_pow_pos j)
      omega
    have hd' : (0 : ℚ) < d := by exact_mod_cast hd
    have hquot : (n : ℚ) / d ≤ (ofInt k hk').value := by
      rw [value_ofInt, div_le_iff₀ hd']
      exact_mod_cast hle
    have hround := ofRatio_le_of_le hd hquot
    rwa [value_ofInt] at hround

end

end Binary64
