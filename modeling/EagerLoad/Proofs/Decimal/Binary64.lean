import EagerLoad.Decimal.Shortest
import Mathlib.Algebra.Order.Field.Basic
import Mathlib.Order.Monotone.Basic
import Mathlib.Tactic.FieldSimp
import Mathlib.Tactic.Linarith
import Mathlib.Tactic.NormNum
import Mathlib.Tactic.Ring

/-! # The numbers that round to a number

Without its sign a finite number is numbered by its bits. The decimals that round to a number lie between
the midpoints with its two neighbours, so no decimal rounds to two numbers. -/
namespace EagerLoad

namespace Binary64

variable {x y : Binary64}

theorem exponentField_eq (x : Binary64) : x.exponentField = x.bits.toNat / 2 ^ 52 % 2 ^ 11 := by
  have mask := Nat.and_two_pow_sub_one_eq_mod (x.bits.toNat / 2 ^ 52) 11
  simp [exponentField, UInt64.toNat_shiftRight, Nat.shiftRight_eq_div_pow] at mask ⊢
  exact mask

theorem fraction_eq (x : Binary64) : x.fraction = x.bits.toNat % 2 ^ 52 := by
  have mask := Nat.and_two_pow_sub_one_eq_mod x.bits.toNat 52
  simp [fraction] at mask ⊢
  exact mask

theorem isNegative_iff (x : Binary64) : x.isNegative = true ↔ 2 ^ 63 ≤ x.bits.toNat := by
  have small := x.bits.toNat_lt
  have shifted : (x.bits >>> 63).toNat = x.bits.toNat / 2 ^ 63 := by
    simp [UInt64.toNat_shiftRight, Nat.shiftRight_eq_div_pow]
  rw [isNegative, beq_iff_eq, ← UInt64.toNat_inj, shifted]
  simp only [UInt64.reduceToNat]
  omega

/-- The bits of a number without its sign. -/
def magnitude (x : Binary64) : Nat := x.exponentField * 2 ^ 52 + x.fraction

theorem eq_of_magnitude (sign : x.isNegative = y.isNegative) (h : x.magnitude = y.magnitude) :
    x = y := by
  have small := x.bits.toNat_lt
  have small' := y.bits.toNat_lt
  have signs : 2 ^ 63 ≤ x.bits.toNat ↔ 2 ^ 63 ≤ y.bits.toNat := by
    rw [← isNegative_iff, ← isNegative_iff, sign]
  rw [magnitude, magnitude, exponentField_eq, exponentField_eq, fraction_eq, fraction_eq] at h
  have bits : x.bits.toNat = y.bits.toNat := by omega
  obtain ⟨xs⟩ := x
  obtain ⟨ys⟩ := y
  exact congrArg mk (UInt64.toNat_inj.mp bits)

theorem fraction_lt (x : Binary64) : x.fraction < 2 ^ 52 := by
  rw [fraction_eq]
  exact Nat.mod_lt _ (by decide)

theorem magnitude_div (x : Binary64) : x.magnitude / 2 ^ 52 = x.exponentField := by
  have small := x.fraction_lt
  unfold magnitude
  omega

theorem magnitude_mod (x : Binary64) : x.magnitude % 2 ^ 52 = x.fraction := by
  have small := x.fraction_lt
  unfold magnitude
  omega

end Binary64

/-! Magnitudes are numbered in their order, so statements about neighbours are about numbers. -/
namespace Magnitude

def significand (n : ℕ) : ℕ := if n / 2 ^ 52 = 0 then n % 2 ^ 52 else n % 2 ^ 52 + 2 ^ 52

/-- The exponent of a quarter of the last place. -/
def quarter (n : ℕ) : ℤ := (max (n / 2 ^ 52) 1 : ℕ) - 1077

/-- The midpoint of a magnitude and the one before it, in quarters of the last place. The gap below a
power of two is half of the one above it. -/
def midpoint (n : ℕ) : ℚ :=
  (4 * significand n - if n % 2 ^ 52 = 0 ∧ 1 < n / 2 ^ 52 then 1 else 2) * 2 ^ quarter n

theorem quarter_pos (n : ℕ) : (0 : ℚ) < 2 ^ quarter n := zpow_pos (by norm_num) _

theorem midpoint_succ (n : ℕ) : midpoint (n + 1) = (4 * significand n + 2) * 2 ^ quarter n := by
  by_cases carry : (n + 1) % 2 ^ 52 = 0
  · have last : n % 2 ^ 52 = 2 ^ 52 - 1 := by omega
    have field : (n + 1) / 2 ^ 52 = n / 2 ^ 52 + 1 := by omega
    have sig : significand (n + 1) = 2 ^ 52 := by
      unfold significand
      split <;> omega
    by_cases small : n / 2 ^ 52 = 0
    · have power : ¬((n + 1) % 2 ^ 52 = 0 ∧ 1 < (n + 1) / 2 ^ 52) := by omega
      have same : quarter (n + 1) = quarter n := by
        unfold quarter
        omega
      rw [midpoint, if_neg power, sig, same, significand, if_pos small, last]
      norm_num
    · have power : (n + 1) % 2 ^ 52 = 0 ∧ 1 < (n + 1) / 2 ^ 52 := by omega
      have twice : quarter (n + 1) = quarter n + 1 := by
        unfold quarter
        omega
      have double : (2 : ℚ) ^ (quarter n + 1) = 2 ^ quarter n * 2 := zpow_add_one₀ (by norm_num) _
      rw [midpoint, if_pos power, sig, twice, double, significand, if_neg small, last]
      push_cast
      ring
  · have fraction : (n + 1) % 2 ^ 52 = n % 2 ^ 52 + 1 := by omega
    have field : (n + 1) / 2 ^ 52 = n / 2 ^ 52 := by omega
    have sig : significand (n + 1) = significand n + 1 := by
      unfold significand
      rw [field, fraction]
      split <;> omega
    have same : quarter (n + 1) = quarter n := by rw [quarter, quarter, field]
    have power : ¬((n + 1) % 2 ^ 52 = 0 ∧ 1 < (n + 1) / 2 ^ 52) := by omega
    rw [midpoint, if_neg power, sig, same]
    push_cast
    ring

theorem midpoint_strictMono : StrictMono midpoint := by
  refine strictMono_nat_of_lt_succ fun n => ?_
  rw [midpoint_succ, midpoint]
  refine mul_lt_mul_of_pos_right ?_ (quarter_pos n)
  split <;> linarith

/-- Whether a value rounds to a magnitude. A midpoint rounds to the even one of its neighbours. -/
def Rounds (n : ℕ) (v : ℚ) : Prop :=
  if n % 2 = 0 then midpoint n ≤ v ∧ v ≤ midpoint (n + 1) else midpoint n < v ∧ v < midpoint (n + 1)

theorem Rounds.between {n : ℕ} {v : ℚ} (h : Rounds n v) : midpoint n ≤ v ∧ v ≤ midpoint (n + 1) := by
  unfold Rounds at h
  split at h
  · exact h
  · exact ⟨h.1.le, h.2.le⟩

/-- No value rounds to two magnitudes. -/
theorem Rounds.unique {m n : ℕ} {v : ℚ} (hm : Rounds m v) (hn : Rounds n v) : m = n := by
  have apart {m n : ℕ} (hm : Rounds m v) (hn : Rounds n v) : ¬m < n := by
    intro less
    have first := hm.between.2
    have second := hn.between.1
    have order : midpoint (m + 1) ≤ midpoint n := midpoint_strictMono.monotone less
    have same : midpoint (m + 1) = midpoint n := le_antisymm order (second.trans first)
    obtain rfl : m + 1 = n := midpoint_strictMono.injective same
    have value : v = midpoint (m + 1) := le_antisymm first second
    unfold Rounds at hm hn
    by_cases even : m % 2 = 0
    · rw [if_neg (by omega)] at hn
      exact absurd value hn.1.ne'
    · rw [if_neg even] at hm
      exact absurd value hm.2.ne
  exact le_antisymm (not_lt.mp (apart hn hm)) (not_lt.mp (apart hm hn))

theorem significand_magnitude (x : Binary64) : significand x.magnitude = x.significand := by
  rw [significand, Binary64.magnitude_div, Binary64.magnitude_mod]
  rfl

theorem quarter_magnitude (x : Binary64) : quarter x.magnitude = x.exponent - 2 := by
  rw [quarter, Binary64.magnitude_div, Binary64.exponent]
  omega

theorem even_magnitude (x : Binary64) : x.magnitude % 2 = x.significand % 2 := by
  unfold Binary64.magnitude Binary64.significand Binary64.leadingBit
  split <;> omega

theorem significand_pos {x : Binary64} (some : x.isZero = false) : 0 < x.significand := by
  unfold Binary64.isZero at some
  unfold Binary64.significand Binary64.leadingBit
  split
  · rename_i small
    rw [small] at some
    have fraction : x.fraction ≠ 0 := by simpa using some
    omega
  · omega

theorem significand_lt (x : Binary64) : x.significand < 2 ^ 53 := by
  have small := x.fraction_lt
  unfold Binary64.significand Binary64.leadingBit
  split <;> omega

theorem midpoint_magnitude (x : Binary64) : midpoint x.magnitude =
    (4 * x.significand - if x.fraction = 0 ∧ 1 < x.exponentField then 1 else 2) *
      2 ^ (x.exponent - 2) := by
  rw [midpoint, significand_magnitude, quarter_magnitude, Binary64.magnitude_mod,
    Binary64.magnitude_div]

end Magnitude
end EagerLoad
