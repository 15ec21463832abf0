import Mathlib
import LoxLang.Binary64.Rounding

/-!
# Rounding to the nearest number, and to even on a tie

What it means that a bit pattern is the nearest one to a rational number, and
that `nearestBits` computes it. The nonnegative numbers of the format are in
the order of their bit patterns, so everything about "nearest" can be said with
the midpoints between a pattern and the next: a rational rounds to the pattern
between whose midpoints it lies, and a midpoint itself to the even one of its
two. Patterns from infinity on are read as if the format went on with larger
and larger exponents; that is how overflow is decided.

A pattern is taken apart as `k * 2 ^ 52 + s`, where `s` is the significand and
`k` the number of doublings of the finest step (`exists_parts`). The significand
has its leading bit unless `k` is zero.
-/

namespace LoxLang

/-- The number that a magnitude stands for. -/
def Magnitude.value (m : Magnitude) : ℚ := m.significand * 2 ^ m.exponent

/-- The number that a decimal stands for. -/
def Decimal.value (d : Decimal) : ℚ := d.coefficient * 10 ^ d.exponent

/-- A power with its positive and its negative part apart, as the model has it. -/
theorem zpow_eq_div {base : ℚ} (pos : 0 < base) (e : ℤ) :
    base ^ e = base ^ e.toNat / base ^ (-e).toNat := by
  have exponents : (e.toNat : ℤ) - ((-e).toNat : ℤ) = e := by omega
  calc base ^ e = base ^ ((e.toNat : ℤ) - ((-e).toNat : ℤ)) := by rw [exponents]
    _ = base ^ e.toNat / base ^ (-e).toNat := by
        rw [zpow_sub₀ pos.ne', zpow_natCast, zpow_natCast]

theorem Decimal.denominator_pos (d : Decimal) : 0 < d.denominator :=
  Nat.pow_pos (by decide)

theorem Decimal.value_eq (d : Decimal) : d.value = d.numerator / d.denominator := by
  rw [value, numerator, denominator, zpow_eq_div (by norm_num)]
  push_cast [Nat.pow_eq]
  rw [mul_div_assoc]

namespace Magnitude

/-! ## Bit patterns in order -/

/-- The number with a bit pattern of given parts, the significand being whole. -/
theorem ofBits_parts {k s : ℕ} (small : s < 2 * 2 ^ 52) (normal : k = 0 ∨ 2 ^ 52 ≤ s) :
    ofBits (k * 2 ^ 52 + s) = ⟨s, minExponent + k⟩ := by
  unfold ofBits
  simp only [Nat.pow_eq]
  by_cases sub : s < 2 ^ 52
  · obtain rfl : k = 0 := by omega
    have field : (0 * 2 ^ 52 + s) / 2 ^ 52 = 0 := by omega
    have fraction : (0 * 2 ^ 52 + s) % 2 ^ 52 = s := by omega
    rw [field, fraction, if_pos rfl]
    simp
  · have field : (k * 2 ^ 52 + s) / 2 ^ 52 = k + 1 := by omega
    have fraction : 2 ^ 52 + (k * 2 ^ 52 + s) % 2 ^ 52 = s := by omega
    rw [field, fraction, if_neg (Nat.succ_ne_zero k)]
    simp

/-- Every bit pattern has such parts. -/
theorem exists_parts (b : ℕ) :
    ∃ k s, b = k * 2 ^ 52 + s ∧ s < 2 * 2 ^ 52 ∧ (k = 0 ∨ 2 ^ 52 ≤ s) := by
  by_cases sub : b < 2 ^ 52
  · exact ⟨0, b, by omega, by omega, .inl rfl⟩
  · exact ⟨b / 2 ^ 52 - 1, b - (b / 2 ^ 52 - 1) * 2 ^ 52, by omega, by omega, by omega⟩

/-- The formula for the number goes one step further: a significand that is carried over gives the
least number of the next binade. -/
theorem value_parts {k s : ℕ} (small : s ≤ 2 * 2 ^ 52) (normal : k = 0 ∨ 2 ^ 52 ≤ s) :
    (ofBits (k * 2 ^ 52 + s)).value = s * 2 ^ (minExponent + k) := by
  rcases small.lt_or_eq with small | rfl
  · rw [ofBits_parts small normal, value]
  · have carried : k * 2 ^ 52 + 2 * 2 ^ 52 = (k + 1) * 2 ^ 52 + 2 ^ 52 := by ring
    rw [carried, ofBits_parts (by norm_num) (.inr le_rfl), value]
    push_cast
    rw [← add_assoc, zpow_add_one₀ (by norm_num)]
    ring

/-- The number halfway between a bit pattern and the next. -/
def midpoint (b : ℕ) : ℚ := ((ofBits b).value + (ofBits (b + 1)).value) / 2

theorem midpoint_parts {k s : ℕ} (small : s < 2 * 2 ^ 52) (normal : k = 0 ∨ 2 ^ 52 ≤ s) :
    midpoint (k * 2 ^ 52 + s) = (s + 1 / 2) * 2 ^ (minExponent + k) := by
  rw [midpoint, add_assoc, value_parts small.le normal, value_parts small (by omega)]
  push_cast
  ring

/-- The midpoint below, where the step below is as large as the step above. -/
theorem midpoint_below {a k s : ℕ} (below : a + 1 = k * 2 ^ 52 + s) (small : s ≤ 2 * 2 ^ 52)
    (normal : k = 0 ∨ 2 ^ 52 < s) : midpoint a = (s - 1 / 2) * 2 ^ (minExponent + k) := by
  obtain ⟨t, rfl⟩ : ∃ t, s = t + 1 := ⟨s - 1, by omega⟩
  obtain rfl : a = k * 2 ^ 52 + t := by omega
  rw [midpoint_parts (by omega) (by omega)]
  push_cast
  ring

/-- The midpoint below the least number of a binade. -/
theorem midpoint_below_binade {a k : ℕ} (below : a + 1 = (k + 1) * 2 ^ 52 + 2 ^ 52) :
    midpoint a = (2 ^ 52 - 1 / 4) * 2 ^ (minExponent + (k + 1)) := by
  obtain rfl : a = k * 2 ^ 52 + (2 * 2 ^ 52 - 1) := by omega
  rw [midpoint_parts (by omega) (by omega), ← add_assoc, zpow_add_one₀ (by norm_num)]
  push_cast
  ring

theorem value_lt_succ (b : ℕ) : (ofBits b).value < (ofBits (b + 1)).value := by
  obtain ⟨k, s, rfl, small, normal⟩ := exists_parts b
  rw [add_assoc, value_parts small.le normal, value_parts small (by omega)]
  have step : (0 : ℚ) < 2 ^ (minExponent + k) := by positivity
  push_cast
  linarith

theorem value_lt_midpoint (b : ℕ) : (ofBits b).value < midpoint b := by
  have := value_lt_succ b
  rw [midpoint]
  linarith

theorem midpoint_lt_value_succ (b : ℕ) : midpoint b < (ofBits (b + 1)).value := by
  have := value_lt_succ b
  rw [midpoint]
  linarith

theorem midpoint_strictMono : StrictMono midpoint :=
  strictMono_nat_of_lt_succ fun b => (midpoint_lt_value_succ b).trans (value_lt_midpoint (b + 1))

end Magnitude

open Magnitude

/-! ## The nearest pattern -/

/-- The rational lies between the midpoints of the pattern, and on one of them only if the pattern
is even. The last bit of a pattern is the last bit of its significand. -/
structure NearestEven (q : ℚ) (b : ℕ) : Prop where
  above : q ≤ midpoint b
  above_tie : q = midpoint b → b % 2 = 0
  below : ∀ a, a + 1 = b → midpoint a ≤ q
  below_tie : ∀ a, a + 1 = b → midpoint a = q → b % 2 = 0

namespace NearestEven

variable {q : ℚ} {b b' : ℕ}

theorem le_of (h : NearestEven q b) (h' : NearestEven q b') : b ≤ b' := by
  by_contra less
  obtain ⟨a, rfl⟩ : ∃ a, b = a + 1 := ⟨b - 1, by omega⟩
  have low := h.below a rfl
  have order := midpoint_strictMono.monotone (show b' ≤ a by omega)
  have same : midpoint b' = midpoint a := le_antisymm order (low.trans h'.above)
  -- both patterns take the tie, and they are neighbours
  have odd := h.below_tie a rfl (le_antisymm low (h'.above.trans_eq same))
  have even := h'.above_tie (le_antisymm h'.above (same.trans_le low))
  obtain rfl := midpoint_strictMono.injective same
  omega

/-- A rational is nearest to one pattern only. -/
theorem unique (h : NearestEven q b) (h' : NearestEven q b') : b = b' :=
  le_antisymm (h.le_of h') (h'.le_of h)

/-- A number of the format is nearest to itself. -/
theorem of_value (b : ℕ) : NearestEven (ofBits b).value b where
  above := (value_lt_midpoint b).le
  above_tie tie := absurd tie (value_lt_midpoint b).ne
  below a ha := ha ▸ (midpoint_lt_value_succ a).le
  below_tie a ha tie := absurd tie (ha ▸ midpoint_lt_value_succ a).ne

end NearestEven

/-- The natural is at most half away from the rational, and exactly half only if it is even. -/
structure NearestNat (x : ℚ) (s : ℕ) : Prop where
  lower : (s - 1 / 2 : ℚ) ≤ x
  lower_tie : (s - 1 / 2 : ℚ) = x → s % 2 = 0
  upper : x ≤ s + 1 / 2
  upper_tie : x = s + 1 / 2 → s % 2 = 0

namespace NearestNat

variable {k s : ℕ} {x : ℚ}

theorem significand_le (h : NearestNat x s) (small : x < 2 * 2 ^ 52) : s ≤ 2 * 2 ^ 52 := by
  have less : (s : ℚ) < (2 * 2 ^ 52 + 1 : ℕ) := by
    have := h.lower
    push_cast
    linarith
  have := Nat.cast_lt.1 less
  omega

theorem le_significand (h : NearestNat x s) (least : 2 ^ 52 ≤ x) : 2 ^ 52 ≤ s := by
  have less : ((2 ^ 52 : ℕ) : ℚ) < (s + 1 : ℕ) := by
    have := h.upper
    push_cast
    linarith
  have := Nat.cast_lt.1 less
  omega

/-- Above a carried significand the step is larger, but the carry is out of reach. -/
theorem above (h : NearestNat x s) (small : x < 2 * 2 ^ 52) (normal : k = 0 ∨ 2 ^ 52 ≤ x) :
    x * 2 ^ (minExponent + k) ≤ midpoint (k * 2 ^ 52 + s) ∧
      (x * 2 ^ (minExponent + k) = midpoint (k * 2 ^ 52 + s) → s % 2 = 0) := by
  have step : (0 : ℚ) < 2 ^ (minExponent + k) := by positivity
  have normal' : k = 0 ∨ 2 ^ 52 ≤ s := normal.imp_right h.le_significand
  rcases (h.significand_le small).lt_or_eq with inside | rfl
  · rw [midpoint_parts inside normal', mul_le_mul_iff_left₀ step, mul_left_inj' step.ne']
    exact ⟨h.upper, h.upper_tie⟩
  · have less : x * 2 ^ (minExponent + k) < midpoint (k * 2 ^ 52 + 2 * 2 ^ 52) := by
      refine lt_trans ?_ (value_lt_midpoint _)
      rw [value_parts le_rfl normal', mul_lt_mul_iff_left₀ step, Nat.cast_mul, Nat.cast_pow]
      exact small
    exact ⟨less.le, fun tie => absurd tie less.ne⟩

/-- Below the least number of a binade the step is smaller, but the rational is not below it. -/
theorem below (h : NearestNat x s) (small : x < 2 * 2 ^ 52) (normal : k = 0 ∨ 2 ^ 52 ≤ x) {a : ℕ}
    (ha : a + 1 = k * 2 ^ 52 + s) : midpoint a ≤ x * 2 ^ (minExponent + k) ∧
      (midpoint a = x * 2 ^ (minExponent + k) → s % 2 = 0) := by
  have step : (0 : ℚ) < 2 ^ (minExponent + k) := by positivity
  by_cases inside : k = 0 ∨ 2 ^ 52 < s
  · rw [midpoint_below ha (h.significand_le small) inside, mul_le_mul_iff_left₀ step,
      mul_left_inj' step.ne']
    exact ⟨h.lower, h.lower_tie⟩
  · obtain ⟨positive, notAbove⟩ := not_or.1 inside
    have least := normal.resolve_left positive
    obtain rfl : s = 2 ^ 52 := by
      have := h.le_significand least
      omega
    obtain ⟨j, rfl⟩ := Nat.exists_eq_succ_of_ne_zero positive
    have less : midpoint a < x * 2 ^ (minExponent + ((j + 1 : ℕ) : ℤ)) := by
      rw [midpoint_below_binade ha, Nat.cast_succ, mul_lt_mul_iff_left₀ (by positivity)]
      linarith
    exact ⟨less.le, fun tie => absurd tie less.ne⟩

/-- A significand that is nearest in steps of its binade gives the nearest pattern. -/
theorem nearestEven (h : NearestNat x s) (small : x < 2 * 2 ^ 52) (normal : k = 0 ∨ 2 ^ 52 ≤ x) :
    NearestEven (x * 2 ^ (minExponent + k)) (k * 2 ^ 52 + s) := by
  have parity : s % 2 = 0 → (k * 2 ^ 52 + s) % 2 = 0 := by omega
  exact ⟨(h.above small normal).1, fun tie => parity ((h.above small normal).2 tie),
    fun a ha => (h.below small normal ha).1,
    fun a ha tie => parity ((h.below small normal ha).2 tie)⟩

end NearestNat

/-! ## The computed one -/

/-- The rounded quotient in whole numbers: at most half away, and exactly half only if even. -/
theorem roundQuotient_bounds (num : ℕ) {den : ℕ} (pos : 0 < den) :
    let s := roundQuotient num den
    (2 * (s * den) ≤ 2 * num + den ∧ (2 * (s * den) = 2 * num + den → s % 2 = 0)) ∧
      2 * num ≤ 2 * (s * den) + den ∧ (2 * num = 2 * (s * den) + den → s % 2 = 0) := by
  have whole := Nat.div_add_mod num den
  have less := Nat.mod_lt num pos
  rw [Nat.mul_comm] at whole
  unfold roundQuotient
  generalize num / den = floor at *
  generalize num % den = rest at *
  have next : (floor + 1) * den = floor * den + den := by ring
  dsimp only
  split
  · omega
  split
  · rw [next]
    omega
  · rcases Nat.mod_two_eq_zero_or_one floor with even | odd
    · rw [even, Nat.add_zero]
      omega
    · rw [odd, next]
      omega

theorem roundQuotient_nearest (num : ℕ) {den : ℕ} (pos : 0 < den) :
    NearestNat (num / den) (roundQuotient num den) := by
  obtain ⟨⟨lower, lower_tie⟩, upper, upper_tie⟩ := roundQuotient_bounds num pos
  generalize roundQuotient num den = s at *
  have posQ : (0 : ℚ) < den := by exact_mod_cast pos
  constructor
  · rw [le_div_iff₀ posQ]
    have : (2 * (s * den) : ℚ) ≤ 2 * num + den := by exact_mod_cast lower
    linarith
  · intro tie
    rw [eq_div_iff posQ.ne'] at tie
    have : (2 * (s * den) : ℚ) = 2 * num + den := by linarith
    exact lower_tie (by exact_mod_cast this)
  · rw [div_le_iff₀ posQ]
    have : (2 * num : ℚ) ≤ 2 * (s * den) + den := by exact_mod_cast upper
    linarith
  · intro tie
    rw [div_eq_iff posQ.ne'] at tie
    have : (2 * num : ℚ) = 2 * (s * den) + den := by linarith
    exact upper_tie (by exact_mod_cast this)

/-- The binary exponent is that of the greatest power of two that is not above the quotient. -/
theorem binaryExponent_spec {num den : ℕ} (pos : 0 < num) (pos' : 0 < den) :
    (2 : ℚ) ^ binaryExponent num den ≤ num / den ∧
      (num / den : ℚ) < 2 ^ (binaryExponent num den + 1) := by
  have posQ : (0 : ℚ) < den := by exact_mod_cast pos'
  have low : (2 : ℚ) ^ num.log2 ≤ num := by exact_mod_cast Nat.log2_self_le pos.ne'
  have high : (num : ℚ) < 2 ^ (num.log2 + 1) := by exact_mod_cast Nat.lt_log2_self
  have low' : (2 : ℚ) ^ den.log2 ≤ den := by exact_mod_cast Nat.log2_self_le pos'.ne'
  have high' : (den : ℚ) < 2 ^ (den.log2 + 1) := by exact_mod_cast Nat.lt_log2_self
  unfold binaryExponent
  dsimp only
  set guess : ℤ := (num.log2 : ℤ) - (den.log2 : ℤ) with hguess
  have test : den * Nat.pow 2 guess.toNat ≤ num * Nat.pow 2 (-guess).toNat ↔
      (2 : ℚ) ^ guess ≤ num / den := by
    rw [zpow_eq_div (by norm_num), div_le_div_iff₀ (by positivity) posQ, Nat.pow_eq, Nat.pow_eq,
      mul_comm den]
    exact_mod_cast Iff.rfl
  have above : (num / den : ℚ) < 2 ^ (guess + 1) := by
    rw [div_lt_iff₀ posQ]
    calc (num : ℚ) < 2 ^ (num.log2 + 1) := high
      _ = 2 ^ (guess + 1) * 2 ^ den.log2 := by
          rw [← zpow_natCast, ← zpow_natCast, ← zpow_add₀ (by norm_num)]
          congr 1
          push_cast
          omega
      _ ≤ 2 ^ (guess + 1) * den := by gcongr
  have below : (2 : ℚ) ^ (guess - 1) ≤ num / den := by
    rw [le_div_iff₀ posQ]
    calc (2 : ℚ) ^ (guess - 1) * den ≤ 2 ^ (guess - 1) * 2 ^ (den.log2 + 1) := by gcongr
      _ = 2 ^ num.log2 := by
          rw [← zpow_natCast, ← zpow_natCast, ← zpow_add₀ (by norm_num)]
          congr 1
          push_cast
          omega
      _ ≤ num := low
  split
  · exact ⟨test.1 ‹_›, above⟩
  · refine ⟨below, ?_⟩
    rw [sub_add_cancel]
    exact not_le.1 (mt test.2 ‹_›)

/-- The significand has its leading bit, unless the step is the finest one, and it has no more bits
than there is room for. -/
theorem scaled_bounds {q x : ℚ} {e : ℤ} {k : ℕ} (low : (2 : ℚ) ^ e ≤ q) (high : q < 2 ^ (e + 1))
    (hk : max (e - 52) minExponent = minExponent + k) (scaled : q = x * 2 ^ (minExponent + k)) :
    x < 2 * 2 ^ 52 ∧ (k = 0 ∨ 2 ^ 52 ≤ x) := by
  have step : (0 : ℚ) < 2 ^ (minExponent + k) := by positivity
  have bits53 : (2 * 2 ^ 52 * 2 ^ (minExponent + k) : ℚ) = 2 ^ (53 + (minExponent + k)) := by
    rw [zpow_add₀ two_ne_zero 53]
    norm_num
  have bits52 : (2 ^ 52 * 2 ^ (minExponent + k) : ℚ) = 2 ^ (52 + (minExponent + k)) := by
    rw [zpow_add₀ two_ne_zero 52]
    norm_num
  constructor
  · rw [← mul_lt_mul_iff_left₀ step, ← scaled, bits53]
    exact high.trans_le (zpow_le_zpow_right₀ (by norm_num) (by omega))
  · by_cases zero : k = 0
    · exact .inl zero
    · right
      have exponent : 52 + (minExponent + (k : ℤ)) = e := by omega
      rw [← mul_le_mul_iff_left₀ step, ← scaled, bits52, exponent]
      exact low

/-- What is computed is the nearest pattern, with everything from infinity on made infinity. -/
theorem nearestBits_nearest (num : ℕ) {den : ℕ} (pos : 0 < den) :
    ∃ b, NearestEven (num / den) b ∧ nearestBits num den = min b infinityBits := by
  rcases Nat.eq_zero_or_pos num with rfl | positive
  · refine ⟨0, ?_, by rw [nearestBits, if_pos rfl, Nat.zero_min]⟩
    have zero : (ofBits 0).value = 0 := by simp [ofBits, value]
    simpa [zero] using NearestEven.of_value 0
  obtain ⟨low, high⟩ := binaryExponent_spec positive pos
  rw [nearestBits, if_neg positive.ne']
  set exponent := max (binaryExponent num den - 52) minExponent with hexponent
  obtain ⟨k, hk⟩ : ∃ k : ℕ, exponent = minExponent + k := ⟨(exponent - minExponent).toNat, by omega⟩
  have denominator : 0 < den * Nat.pow 2 exponent.toNat :=
    Nat.mul_pos pos (Nat.pow_pos (by decide))
  have nearest := roundQuotient_nearest (num * Nat.pow 2 (-exponent).toNat) denominator
  have scaled : (num / den : ℚ) = ((num * Nat.pow 2 (-exponent).toNat : ℕ) : ℚ) /
      (den * Nat.pow 2 exponent.toNat : ℕ) * 2 ^ (minExponent + k) := by
    rw [← hk, zpow_eq_div (by norm_num) exponent, Nat.pow_eq, Nat.pow_eq]
    push_cast
    field_simp
  obtain ⟨small, normal⟩ := scaled_bounds low high (hexponent.symm.trans hk) scaled
  refine ⟨k * 2 ^ 52 + _, scaled ▸ nearest.nearestEven small normal, ?_⟩
  have doublings : (exponent - minExponent).toNat = k := by omega
  simp only [bits, doublings, Nat.pow_eq]

variable {b : ℕ} {d : Decimal}

/-- A finite pattern that a decimal is nearest to is what reading the decimal gives. -/
theorem NearestEven.nearestBits_eq (h : NearestEven d.value b) (finite : b < infinityBits) :
    nearestBits d.numerator d.denominator = b := by
  obtain ⟨b', nearest, computed⟩ := nearestBits_nearest d.numerator d.denominator_pos
  rw [← d.value_eq] at nearest
  rw [computed, nearest.unique h, min_eq_left finite.le]

theorem nearestBits_le (num den : ℕ) : nearestBits num den ≤ infinityBits := by
  unfold nearestBits
  split
  · exact Nat.zero_le _
  · exact min_le_right _ _

end LoxLang
