import LoxLang.Binary64.Shortest
import LoxLang.Proofs.NearestEven

/-!
# The shortest digits read back

The search for the shortest digits tries ever finer decimal grids and stops at
the first point that its test admits. The test compares scaled whole numbers; in
rational terms it asks whether the point lies between the midpoints around the
number (`covers_nearest`). The search ends with a hit because it passes a grid on
which the number itself is a point (`firstHit_covers`). That grid also bounds how
far it goes, so an integral number gets no digits behind the point.
-/

namespace LoxLang

namespace Magnitude

variable {m : Magnitude} {b c p : ℕ} {place : ℤ}

/-! ## The test -/

/-- The two scaled units of the test stand in the ratio of the decimal step and the quarter of the
binary step. -/
theorem scaled_units (m : Magnitude) (place : ℤ) :
    (m.gridStep place * 2 ^ (m.exponent - 2) : ℚ) = 10 ^ place * m.quarterStep place := by
  have opposite : -(m.exponent - 2) = 2 - m.exponent := by ring
  rw [zpow_eq_div two_pos (m.exponent - 2), opposite, zpow_eq_div (by norm_num) place, gridStep,
    quarterStep]
  push_cast [Nat.pow_eq]
  field_simp

theorem quarterStep_pos (m : Magnitude) (place : ℤ) : 0 < m.quarterStep place :=
  Nat.mul_pos (Nat.pow_pos (by decide)) (Nat.pow_pos (by decide))

/-- Scaling is multiplication by one and the same positive number on both sides. -/
theorem exists_scale (m : Magnitude) (place : ℤ) : ∃ scale : ℚ, 0 < scale ∧
    (m.gridStep place : ℚ) = 10 ^ place * scale ∧
    (m.quarterStep place : ℚ) = 2 ^ (m.exponent - 2) * scale := by
  have quarter : (0 : ℚ) < m.quarterStep place := by exact_mod_cast m.quarterStep_pos place
  refine ⟨m.quarterStep place / 2 ^ (m.exponent - 2), by positivity, ?_, by field_simp⟩
  rw [← mul_div_assoc, ← scaled_units]
  field_simp

theorem grid_le_quarters {n : ℕ} : c * m.gridStep place ≤ n * m.quarterStep place ↔
    (c * 10 ^ place : ℚ) ≤ n * 2 ^ (m.exponent - 2) := by
  obtain ⟨scale, pos, grid, quarter⟩ := m.exists_scale place
  rw [← Nat.cast_le (α := ℚ), Nat.cast_mul, Nat.cast_mul, grid, quarter, ← mul_assoc, ← mul_assoc,
    mul_le_mul_iff_left₀ pos]

theorem quarters_le_grid {n : ℕ} : n * m.quarterStep place ≤ c * m.gridStep place ↔
    (n * 2 ^ (m.exponent - 2) : ℚ) ≤ c * 10 ^ place := by
  obtain ⟨scale, pos, grid, quarter⟩ := m.exists_scale place
  rw [← Nat.cast_le (α := ℚ), Nat.cast_mul, Nat.cast_mul, grid, quarter, ← mul_assoc, ← mul_assoc,
    mul_le_mul_iff_left₀ pos]

theorem significand_parity (b : ℕ) : (ofBits b).significand % 2 = b % 2 := by
  obtain ⟨k, s, rfl, small, normal⟩ := exists_parts b
  rw [ofBits_parts small normal]
  dsimp only
  omega

theorem minExponent_le (b : ℕ) : minExponent ≤ (ofBits b).exponent := by
  obtain ⟨k, s, rfl, small, normal⟩ := exists_parts b
  rw [ofBits_parts small normal]
  dsimp only
  omega

/-- A step is four quarters. -/
theorem zpow_quarter (e : ℤ) : (2 : ℚ) ^ e = 4 * 2 ^ (e - 2) := by
  rw [zpow_sub₀ two_ne_zero]
  field_simp
  norm_num

theorem upperEnd_eq (b : ℕ) :
    ((ofBits b).upperEnd * 2 ^ ((ofBits b).exponent - 2) : ℚ) = midpoint b := by
  obtain ⟨k, s, rfl, small, normal⟩ := exists_parts b
  rw [midpoint_parts small normal, ofBits_parts small normal, upperEnd]
  dsimp only
  rw [zpow_quarter (minExponent + k)]
  push_cast
  ring

theorem lowerEnd_eq {a : ℕ} (ha : a + 1 = b) :
    ((ofBits b).lowerEnd * 2 ^ ((ofBits b).exponent - 2) : ℚ) = midpoint a := by
  obtain ⟨k, s, rfl, small, normal⟩ := exists_parts b
  rw [ofBits_parts small normal, lowerEnd]
  simp only [Nat.pow_eq]
  by_cases least : s = 2 ^ 52 ∧ k ≠ 0
  · obtain ⟨rfl, positive⟩ := least
    obtain ⟨j, rfl⟩ := Nat.exists_eq_succ_of_ne_zero positive
    rw [if_pos ⟨rfl, by omega⟩, midpoint_below_binade ha, ← Nat.cast_succ,
      zpow_quarter (minExponent + (j + 1 : ℕ))]
    norm_num
    ring
  · have inside : k = 0 ∨ 2 ^ 52 < s := by omega
    rw [if_neg (by omega), midpoint_below ha small.le inside, zpow_quarter (minExponent + k),
      Nat.cast_sub (by omega)]
    push_cast
    ring

/-- A decimal that the test admits is nearest to the number. -/
theorem covers_nearest (h : (ofBits b).covers place c = true) :
    NearestEven (c * 10 ^ place) b := by
  unfold covers at h
  dsimp only at h
  rw [significand_parity] at h
  by_cases even : b % 2 = 0
  · rw [if_pos even, Bool.and_eq_true, decide_eq_true_eq, decide_eq_true_eq, quarters_le_grid,
      grid_le_quarters, upperEnd_eq] at h
    refine ⟨h.2, fun _ => even, fun a ha => ?_, fun _ _ _ => even⟩
    rw [← lowerEnd_eq ha]
    exact h.1
  · rw [if_neg even, Bool.and_eq_true, decide_eq_true_eq, decide_eq_true_eq, ← not_le, ← not_le,
      quarters_le_grid, grid_le_quarters, upperEnd_eq, not_le, not_le] at h
    refine ⟨h.2.le, fun tie => absurd tie h.2.ne, fun a ha => ?_, fun a ha tie => ?_⟩
    · rw [← lowerEnd_eq ha]
      exact h.1.le
    · rw [← lowerEnd_eq ha] at tie
      exact absurd tie h.1.ne

/-! ## The search -/

/-- The number itself is a point of the grid. -/
def OnGrid (m : Magnitude) (place : ℤ) : Prop := m.gridStep place ∣ m.scaled place

theorem OnGrid.covers (h : m.OnGrid place) :
    m.covers place (m.scaled place / m.gridStep place) = true := by
  have low : m.lowerEnd ≤ 4 * m.significand := by
    unfold lowerEnd
    split <;> omega
  have low' : m.significand % 2 ≠ 0 → m.lowerEnd < 4 * m.significand := by
    unfold lowerEnd
    split <;> omega
  have high : 4 * m.significand < m.upperEnd := by
    unfold upperEnd
    omega
  have pos := m.quarterStep_pos place
  unfold Magnitude.covers
  dsimp only
  rw [Nat.div_mul_cancel h, scaled]
  split
  · simp only [Bool.and_eq_true, decide_eq_true_eq]
    exact ⟨Nat.mul_le_mul_right _ low, Nat.mul_le_mul_right _ high.le⟩
  · simp only [Bool.and_eq_true, decide_eq_true_eq]
    exact ⟨Nat.mul_lt_mul_of_pos_right (low' ‹_›) pos, Nat.mul_lt_mul_of_pos_right high pos⟩

theorem gridPoint?_covers {tie : Tie} (h : m.gridPoint? tie place = some c) :
    m.covers place c = true := by
  unfold gridPoint? at h
  dsimp only at h
  generalize m.scaled place / m.gridStep place = below at h
  cases hl : m.covers place below <;> cases hu : m.covers place (below + 1) <;>
    simp only [hl, hu] at h
  · cases h
  · cases h
    exact hu
  · cases h
    exact hl
  · split at h
    · cases h
      exact hl
    split at h
    · cases h
      exact hu
    cases tie with
    | up =>
        cases h
        exact hu
    | toEven =>
        cases h
        rcases Nat.mod_two_eq_zero_or_one below with even | odd
        · rw [even]
          exact hl
        · rw [odd]
          exact hu

theorem OnGrid.gridPoint?_isSome (h : m.OnGrid place) (tie : Tie) :
    (m.gridPoint? tie place).isSome = true := by
  unfold gridPoint?
  dsimp only
  rw [h.covers]
  cases m.covers place (m.scaled place / m.gridStep place + 1)
  · rfl
  · dsimp only
    split
    · rfl
    split
    · rfl
    cases tie <;> rfl

/-- The search passes no grid that holds the number, and what it ends with is admitted. -/
theorem firstHit_covers {tie : Tie} {steps : ℕ} {last : ℤ} (on : m.OnGrid last)
    (first : last ≤ place) (reach : place - steps ≤ last) :
    last ≤ (m.firstHit tie steps place).exponent ∧
      m.covers (m.firstHit tie steps place).exponent (m.firstHit tie steps place).coefficient =
        true := by
  induction steps generalizing place with
  | zero =>
      obtain rfl : last = place := by omega
      exact ⟨le_rfl, on.covers⟩
  | succ steps ih =>
      rw [firstHit]
      cases hit : m.gridPoint? tie place with
      | some c => exact ⟨first, gridPoint?_covers hit⟩
      | none =>
          have notHere : last ≠ place := by
            rintro rfl
            have := on.gridPoint?_isSome tie
            rw [hit] at this
            cases this
          exact ih (by omega) (by omega)

/-- A grid that is fine enough holds the number. -/
theorem onGrid_of_le (h : place ≤ m.exponent) (h' : place ≤ 0) : m.OnGrid place := by
  have integral : place.toNat = 0 := by omega
  have power : 2 ^ (2 - m.exponent).toNat ∣ 2 ^ (2 + (-place).toNat) :=
    Nat.pow_dvd_pow 2 (by omega)
  have tens : 2 ^ (-place).toNat ∣ 10 ^ (-place).toNat := pow_dvd_pow_of_dvd (by norm_num) _
  unfold OnGrid gridStep scaled quarterStep
  simp only [Nat.pow_eq, integral, pow_zero, one_mul]
  calc 2 ^ (2 - m.exponent).toNat ∣ 2 ^ (2 + (-place).toNat) := power
    _ = 4 * 2 ^ (-place).toNat := by rw [pow_add]; norm_num
    _ ∣ 4 * 10 ^ (-place).toNat := mul_dvd_mul_left 4 tens
    _ ∣ 4 * m.significand * (2 ^ (m.exponent - 2).toNat * 10 ^ (-place).toNat) :=
        ⟨m.significand * 2 ^ (m.exponent - 2).toNat, by ring⟩

theorem natural?_value {n : ℕ} (h : m.natural? = some n) : (n : ℚ) = m.value := by
  unfold natural? at h
  split at h
  · cases h
    have whole : (m.exponent.toNat : ℤ) = m.exponent := by omega
    rw [value, Nat.cast_mul, Nat.pow_eq, Nat.cast_pow, ← zpow_natCast, whole]
    norm_num
  · simp only [Nat.pow_eq] at h
    split at h
    · cases h
      have fraction : ((-m.exponent).toNat : ℤ) = -m.exponent := by omega
      rw [value, Nat.cast_div (Nat.dvd_of_mod_eq_zero ‹_›) (by positivity), Nat.cast_pow,
        ← zpow_natCast, fraction, zpow_neg]
      norm_num
    · cases h

theorem natural?_of_value {n : ℕ} (h : m.value = n) : m.natural? = some n := by
  have found : ∃ k, m.natural? = some k := by
    unfold natural?
    split
    · exact ⟨_, rfl⟩
    · have fraction : ((-m.exponent).toNat : ℤ) = -m.exponent := by omega
      have whole : m.significand = n * 2 ^ (-m.exponent).toNat := by
        qify
        rw [← h, value, ← zpow_natCast, fraction, mul_assoc, ← zpow_add₀ (by norm_num),
          add_neg_cancel, zpow_zero, mul_one]
      rw [whole]
      exact ⟨_, if_pos (Nat.mul_mod_left n _)⟩
  obtain ⟨k, hk⟩ := found
  have same : (k : ℚ) = n := (natural?_value hk).trans h
  rwa [Nat.cast_injective same] at hk

/-- The grid of whole numbers holds a number that is one. -/
theorem onGrid_zero {n : ℕ} (h : m.natural? = some n) : m.OnGrid 0 := by
  by_cases whole : 0 ≤ m.exponent
  · exact onGrid_of_le whole le_rfl
  · have step : (2 - m.exponent).toNat = 2 + (-m.exponent).toNat := by omega
    have divides : 2 ^ (-m.exponent).toNat ∣ m.significand := by
      unfold natural? at h
      rw [if_neg whole] at h
      simp only [Nat.pow_eq] at h
      split at h
      · exact Nat.dvd_of_mod_eq_zero ‹_›
      · cases h
    unfold OnGrid gridStep scaled quarterStep
    simp only [Nat.pow_eq, Int.toNat_zero, pow_zero, one_mul, mul_one, neg_zero, step, pow_add]
    exact Dvd.dvd.mul_right (mul_dvd_mul_left 4 divides) _

/-! ## The shortest digits -/

theorem shortest_of_zero (tie : Tie) (h : m.significand = 0) : m.shortest tie = ⟨0, 0⟩ := by
  rw [shortest, if_pos h]

theorem shortest_covers {tie : Tie} {last : ℤ} (positive : m.significand ≠ 0) (on : m.OnGrid last)
    (first : last ≤ 0) (reach : -1080 ≤ last) : last ≤ (m.shortest tie).exponent ∧
      m.covers (m.shortest tie).exponent (m.shortest tie).coefficient = true := by
  rw [shortest, if_neg positive]
  exact firstHit_covers on (by omega) (by omega)

/-- The shortest digits are nearest to the number. -/
theorem shortest_nearest (b : ℕ) (tie : Tie) : NearestEven ((ofBits b).shortest tie).value b := by
  by_cases zero : (ofBits b).significand = 0
  · have same := NearestEven.of_value b
    rw [value, zero, Nat.cast_zero, zero_mul] at same
    rw [shortest_of_zero tie zero, Decimal.value, Nat.cast_zero, zero_mul]
    exact same
  · have least := minExponent_le b
    have fine : (ofBits b).OnGrid (-1080) := by
      refine onGrid_of_le ?_ (by norm_num)
      unfold minExponent at least
      omega
    exact covers_nearest (shortest_covers zero fine (by norm_num) le_rfl).2

/-- An integral number gets no digits behind the point. -/
theorem shortest_integral {n : ℕ} (h : m.natural? = some n) (tie : Tie) :
    0 ≤ (m.shortest tie).exponent := by
  by_cases zero : m.significand = 0
  · rw [shortest_of_zero tie zero]
  · exact (shortest_covers zero (onGrid_zero h) le_rfl (by norm_num)).1

end Magnitude

end LoxLang
