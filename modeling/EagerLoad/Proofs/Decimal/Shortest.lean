import EagerLoad.Proofs.Decimal.Binary64

/-! # Shortest decimals round to their number

The search for a decimal looks at grids down to seventeen places below the first digit. There at the latest
a decimal lies nearer to the number than any midpoint, so the search finds one, and what it finds rounds to
the number. -/
namespace EagerLoad

open Magnitude

namespace Binary64

/-- A quotient of naturals counted in a unit has the value of the quotient over the unit. -/
theorem scaled_ratio (num : ℕ) (unit : ℤ) :
    0 < (scaled num 1 unit).2 ∧
      ((scaled num 1 unit).1 : ℚ) = num * 2 ^ (-unit) * (scaled num 1 unit).2 := by
  unfold scaled
  split
  · rename_i fine
    obtain ⟨k, rfl⟩ : ∃ k : ℕ, unit = -k := ⟨unit.natAbs, by omega⟩
    simp
  · rename_i coarse
    obtain ⟨k, rfl⟩ : ∃ k : ℕ, unit = k := ⟨unit.natAbs, by omega⟩
    have positive : (2 : ℚ) ^ k ≠ 0 := by positivity
    simp [positive]

end Binary64

namespace Decimal

namespace Interval

/-- Units are counted in steps of a power of ten. -/
theorem steps_ratio (i : Interval) (n : ℕ) (place : ℤ) :
    0 < (i.steps n place).2 ∧
      ((i.steps n place).1 : ℚ) * 10 ^ place = n * 2 ^ i.unit * (i.steps n place).2 := by
  obtain ⟨positive, ratio⟩ := Binary64.scaled_ratio n (-i.unit)
  rw [neg_neg] at ratio
  unfold steps
  generalize Binary64.scaled n 1 (-i.unit) = quotient at positive ratio ⊢
  obtain ⟨a, b⟩ := quotient
  dsimp only at positive ratio ⊢
  split
  · rename_i fine
    obtain ⟨k, rfl⟩ : ∃ k : ℕ, place = -k := ⟨place.natAbs, by omega⟩
    have ten : (10 : ℚ) ^ k ≠ 0 := by positivity
    refine ⟨positive, ?_⟩
    simp [ratio, mul_assoc, ten]
  · rename_i coarse
    obtain ⟨k, rfl⟩ : ∃ k : ℕ, place = k := ⟨place.natAbs, by omega⟩
    refine ⟨Nat.mul_pos positive (Nat.pow_pos (by decide)), ?_⟩
    simp [ratio, mul_assoc]

private theorem ten_pos (place : ℤ) : (0 : ℚ) < 10 ^ place := zpow_pos (by norm_num) _

/-- A count of steps is compared with a count of units as their values are. -/
theorem steps_le (i : Interval) (n count : ℕ) (place : ℤ) :
    ((i.steps n place).1 ≤ count * (i.steps n place).2 ↔
        (n : ℚ) * 2 ^ i.unit ≤ count * 10 ^ place) ∧
      (count * (i.steps n place).2 ≤ (i.steps n place).1 ↔
        (count : ℚ) * 10 ^ place ≤ n * 2 ^ i.unit) := by
  obtain ⟨positive, ratio⟩ := i.steps_ratio n place
  generalize i.steps n place = quotient at positive ratio ⊢
  obtain ⟨a, b⟩ := quotient
  dsimp only at positive ratio ⊢
  have den : (0 : ℚ) < b := by exact_mod_cast positive
  have ten := ten_pos place
  constructor
  · rw [← Nat.cast_le (α := ℚ), ← mul_le_mul_iff_left₀ ten, ratio]
    push_cast
    rw [mul_right_comm (count : ℚ), mul_le_mul_iff_left₀ den]
  · rw [← Nat.cast_le (α := ℚ), ← mul_le_mul_iff_left₀ ten, ratio]
    push_cast
    rw [mul_right_comm (count : ℚ), mul_le_mul_iff_left₀ den]

theorem holds_iff (i : Interval) (count : ℕ) (place : ℤ) :
    i.holds count place = true ↔
      if i.closed then (i.low : ℚ) * 2 ^ i.unit ≤ count * 10 ^ place ∧
        (count : ℚ) * 10 ^ place ≤ i.high * 2 ^ i.unit
      else (i.low : ℚ) * 2 ^ i.unit < count * 10 ^ place ∧
        (count : ℚ) * 10 ^ place < i.high * 2 ^ i.unit := by
  obtain ⟨below, above⟩ := i.steps_le i.low count place
  obtain ⟨below', above'⟩ := i.steps_le i.high count place
  unfold holds
  cases i.closed with
  | true => simp [below, above']
  | false => simp only [Bool.false_eq_true, if_false, Bool.and_eq_true, decide_eq_true_eq,
      ← not_le, above, below']

theorem nearest?_holds {i : Interval} {t : Tie} {place : ℤ} {count : ℕ}
    (found : i.nearest? t place = some count) : i.holds count place = true := by
  unfold nearest? at found
  generalize i.steps i.value place = quotient at found
  obtain ⟨a, b⟩ := quotient
  dsimp only at found
  split at found
  · rename_i below above
    obtain rfl := Option.some.inj found
    split
    · exact below
    · split
      · exact above
      · cases t with
        | upward => exact above
        | toEven =>
          obtain even | odd := Nat.mod_two_eq_zero_or_one (a / b)
          · simpa [Tie.pick, even] using below
          · simpa [Tie.pick, odd] using above
  · rename_i below above
    exact Option.some.inj found ▸ below
  · rename_i below above
    exact Option.some.inj found ▸ above
  · exact absurd found (by simp)

theorem search_holds {i : Interval} {t : Tie} {fuel : ℕ} {place finest : ℤ} {count : ℕ}
    (found : i.search t fuel place = some (count, finest)) : i.holds count finest = true := by
  induction fuel generalizing place with
  | zero => exact absurd found (by simp [search])
  | succ fuel ih =>
    rw [search] at found
    split at found
    · rename_i near
      obtain ⟨rfl, rfl⟩ := Prod.mk.inj (Option.some.inj found)
      exact nearest?_holds near
    · exact ih found

/-- A search that fails has looked at every grid in its reach. -/
theorem nearest?_of_search {i : Interval} {t : Tie} {fuel : ℕ} {place : ℤ}
    (failed : i.search t fuel place = none) : ∀ k < fuel, i.nearest? t (place - k) = none := by
  induction fuel generalizing place with
  | zero => intro k less; omega
  | succ fuel ih =>
    rw [search] at failed
    split at failed
    · exact absurd failed (by simp)
    · rename_i here
      intro k less
      cases k with
      | zero => simpa using here
      | succ k =>
        have later := ih failed k (by omega)
        have same : place - (k + 1 : ℕ) = place - 1 - k := by omega
        rw [same]
        exact later

/-- A grid finer than the gaps beside the value has a point nearer to it than the ends. -/
theorem nearest?_isSome {i : Interval} {t : Tie} {place : ℤ} (fine : (10 : ℚ) ^ place ≤ 2 ^ i.unit)
    (low : i.low + 1 ≤ i.value) (high : i.value < i.high) : i.nearest? t place ≠ none := by
  obtain ⟨positive, -⟩ := i.steps_ratio i.value place
  have unit : (0 : ℚ) < 2 ^ i.unit := zpow_pos (by norm_num) _
  generalize count : (i.steps i.value place).1 / (i.steps i.value place).2 = q
  have under : (q : ℚ) * 10 ^ place ≤ i.value * 2 ^ i.unit := by
    rw [← (i.steps_le i.value q place).2, ← count]
    exact Nat.div_mul_le_self _ _
  have above : (i.value : ℚ) * 2 ^ i.unit < (q + 1 : ℕ) * 10 ^ place := by
    rw [← not_le, ← (i.steps_le i.value (q + 1) place).2, not_le, ← count]
    exact Nat.lt_mul_of_div_lt (Nat.lt_succ_self _) positive
  have below : i.holds q place = true := by
    have first : (i.low : ℚ) + 1 ≤ i.value := by exact_mod_cast low
    have last : (i.value : ℚ) < i.high := by exact_mod_cast high
    have least : (i.low : ℚ) * 2 ^ i.unit + 2 ^ i.unit ≤ i.value * 2 ^ i.unit := by
      rw [← add_one_mul]
      exact mul_le_mul_of_nonneg_right first unit.le
    have most : (i.value : ℚ) * 2 ^ i.unit < i.high * 2 ^ i.unit := mul_lt_mul_of_pos_right last unit
    push_cast at above
    rw [add_one_mul] at above
    have strict : (i.low : ℚ) * 2 ^ i.unit < q * 10 ^ place := by linarith
    rw [holds_iff]
    split
    · exact ⟨strict.le, under.trans most.le⟩
    · exact ⟨strict, under.trans_lt most⟩
  unfold nearest?
  dsimp only
  rw [count, below]
  cases i.holds (q + 1) place <;> simp

end Interval
/-- So many digits less one is the power of ten that a number reaches. -/
private theorem pow_le_of_digits {n : ℕ} (some : 0 < n) :
    10 ^ ((Nat.toDigits 10 n).length - 1) ≤ n ∧ n < 10 ^ (Nat.toDigits 10 n).length := by
  have length : 0 < (Nat.toDigits 10 n).length := Nat.length_toDigits_pos
  constructor
  · obtain one | more := Nat.eq_zero_or_pos ((Nat.toDigits 10 n).length - 1)
    · rw [one]
      exact some
    · rw [← not_lt, ← Nat.length_toDigits_le_iff (by decide) more]
      omega
  · rw [← Nat.length_toDigits_le_iff (by decide) length]

/-- The first digit of a quotient stands at its leading place or above. -/
theorem leadingPlace_le {num den : ℕ} (positive : 0 < num) (den_pos : 0 < den) :
    (10 : ℚ) ^ leadingPlace num den * den ≤ num := by
  unfold leadingPlace
  split
  · rename_i whole
    have some : 0 < num / den := Nat.div_pos whole den_pos
    have length : 0 < (Nat.toDigits 10 (num / den)).length := Nat.length_toDigits_pos
    obtain ⟨k, digits⟩ : ∃ k, (Nat.toDigits 10 (num / den)).length = k + 1 :=
      ⟨(Nat.toDigits 10 (num / den)).length - 1, by omega⟩
    have reach := (pow_le_of_digits some).1
    rw [digits, Nat.add_sub_cancel] at reach
    have total : 10 ^ k * den ≤ num := (Nat.mul_le_mul_right den reach).trans (Nat.div_mul_le_self _ _)
    have place : ((k + 1 : ℕ) : ℤ) - 1 = k := by omega
    rw [digits, place, zpow_natCast]
    exact_mod_cast total
  · rename_i part
    have some : 0 < den / num := Nat.div_pos (by omega) positive
    have length : 0 < (Nat.toDigits 10 (den / num)).length := Nat.length_toDigits_pos
    obtain ⟨k, digits⟩ : ∃ k, (Nat.toDigits 10 (den / num)).length = k + 1 :=
      ⟨(Nat.toDigits 10 (den / num)).length - 1, by omega⟩
    have reach := (pow_le_of_digits some).2
    rw [digits] at reach ⊢
    have small (j : ℕ) (h : den ≤ num * 10 ^ j) : (10 : ℚ) ^ (-(j : ℤ)) * den ≤ num := by
      have ten : (0 : ℚ) < 10 ^ j := by positivity
      have cast : (den : ℚ) ≤ num * 10 ^ j := by exact_mod_cast h
      rw [zpow_neg, zpow_natCast, inv_mul_le_iff₀ ten, mul_comm]
      exact cast
    dsimp only
    rw [Nat.add_sub_cancel]
    split
    · rename_i exact'
      have place : -(((k + 1 : ℕ) : ℤ) - 1) = -(k : ℤ) := by omega
      rw [place]
      exact small k exact'
    · refine small (k + 1) ?_
      have less : den < num * (den / num + 1) := Nat.lt_mul_div_succ den positive
      exact less.le.trans (Nat.mul_le_mul_left num reach)

namespace Interval

/-- What lies in the interval of a number rounds to it. -/
theorem rounds_of_holds {x : Binary64} (some : x.isZero = false) {count : ℕ} {place : ℤ}
    (h : (ofBinary x).holds count place = true) : Rounds x.magnitude (count * 10 ^ place) := by
  have positive := significand_pos some
  have low : ((ofBinary x).low : ℚ) =
      4 * x.significand - if x.fraction = 0 ∧ 1 < x.exponentField then 1 else 2 := by
    by_cases power : x.fraction = 0 ∧ 1 < x.exponentField
    · have shape : (ofBinary x).low = 4 * x.significand - 1 := by simp [ofBinary, power]
      have least : 1 ≤ 4 * x.significand := by omega
      rw [shape, if_pos power]
      push_cast [least]
      ring
    · have shape : (ofBinary x).low = 4 * x.significand - 2 := by
        unfold ofBinary
        exact if_neg (by simpa using power)
      have least : 2 ≤ 4 * x.significand := by omega
      rw [shape, if_neg power]
      push_cast [least]
      ring
  have high : ((ofBinary x).high : ℚ) = 4 * x.significand + 2 := by
    simp [ofBinary]
  have closed : (ofBinary x).closed = true ↔ x.magnitude % 2 = 0 := by
    rw [even_magnitude]
    simp [ofBinary]
  have unit : (ofBinary x).unit = x.exponent - 2 := rfl
  rw [holds_iff, low, high, unit] at h
  rw [Rounds, midpoint_magnitude, midpoint_succ, significand_magnitude, quarter_magnitude]
  by_cases even : x.magnitude % 2 = 0
  · rw [if_pos (closed.mpr even)] at h
    rw [if_pos even]
    exact h
  · rw [if_neg (mt closed.mp even)] at h
    rw [if_neg even]
    exact h

/-- The leading place of a number's ratio is not above the number. -/
private theorem leadingPlace_le_value {x : Binary64} (some : x.isZero = false) :
    (10 : ℚ) ^ leadingPlace x.ratio.1 x.ratio.2 ≤ x.significand * 2 ^ x.exponent := by
  obtain ⟨den, ratio⟩ := Binary64.scaled_ratio x.significand (-x.exponent)
  rw [neg_neg] at ratio
  change 0 < x.ratio.2 at den
  change (x.ratio.1 : ℚ) = _ * _ * (x.ratio.2 : ℚ) at ratio
  have den_pos : (0 : ℚ) < x.ratio.2 := by exact_mod_cast den
  have num_pos : 0 < x.ratio.1 := by
    have sig : (0 : ℚ) < x.significand := by exact_mod_cast significand_pos some
    have unit : (0 : ℚ) < 2 ^ x.exponent := zpow_pos (by norm_num) _
    have value : (0 : ℚ) < x.ratio.1 := by
      rw [ratio]
      exact mul_pos (mul_pos sig unit) den_pos
    exact_mod_cast value
  have lead := leadingPlace_le num_pos den
  rw [ratio, mul_le_mul_iff_left₀ den_pos] at lead
  exact lead

/-- Seventeen places below the leading one decimals are closer than the quarters of the last place. -/
private theorem fine_leadingPlace {x : Binary64} (some : x.isZero = false) :
    (10 : ℚ) ^ (leadingPlace x.ratio.1 x.ratio.2 - 17) ≤ 2 ^ (ofBinary x).unit := by
  have unit : (ofBinary x).unit = x.exponent - 2 := rfl
  have two : (0 : ℚ) < 2 ^ (x.exponent - 2) := zpow_pos (by norm_num) _
  have quarters : (2 : ℚ) ^ x.exponent = 4 * 2 ^ (x.exponent - 2) := by
    rw [zpow_sub₀ (by norm_num)]
    norm_num
    ring
  have lead := leadingPlace_le_value some
  rw [quarters] at lead
  have small : (x.significand : ℚ) ≤ 2 ^ 53 := by exact_mod_cast (significand_lt x).le
  have least : (x.significand : ℚ) * (4 * 2 ^ (x.exponent - 2)) ≤
      2 ^ 53 * (4 * 2 ^ (x.exponent - 2)) :=
    mul_le_mul_of_nonneg_right small (by positivity)
  have places : (10 : ℚ) ^ (leadingPlace x.ratio.1 x.ratio.2 - 17) =
      10 ^ leadingPlace x.ratio.1 x.ratio.2 / 10 ^ 17 := by
    rw [zpow_sub₀ (by norm_num)]
    norm_num
  rw [places, unit, div_le_iff₀ (by positivity)]
  linarith

/-- Seventeen places below the leading one a decimal is found. -/
theorem search_isSome (t : Tie) {x : Binary64} (some : x.isZero = false) :
    (ofBinary x).search t 18 (leadingPlace x.ratio.1 x.ratio.2) ≠ none := by
  intro failed
  have positive := significand_pos some
  have low : (ofBinary x).low + 1 ≤ (ofBinary x).value := by
    unfold ofBinary
    dsimp only
    split <;> omega
  have high : (ofBinary x).value < (ofBinary x).high := by
    unfold ofBinary
    dsimp only
    omega
  exact nearest?_isSome (fine_leadingPlace some) low high (nearest?_of_search failed 17 (by decide))

end Interval

/-- The digits written for a number that is not zero stand for a decimal that rounds to it. -/
theorem shortest_rounds (t : Tie) {x : Binary64} (some : x.isZero = false) :
    ∃ (count : ℕ) (place : ℤ), 0 < count ∧
      shortest t x = ⟨dropZeros (Nat.toDigits 10 count),
        place + (Nat.toDigits 10 count).length - 1⟩ ∧
      Rounds x.magnitude (count * 10 ^ place) := by
  cases found : (Interval.ofBinary x).search t 18 (leadingPlace x.ratio.1 x.ratio.2) with
  | none => exact absurd found (Interval.search_isSome t some)
  | some result =>
    obtain ⟨count, place⟩ := result
    have rounds := Interval.rounds_of_holds some (Interval.search_holds found)
    refine ⟨count, place, ?_, ?_, rounds⟩
    · have least : (0 : ℚ) < midpoint x.magnitude := by
        have sig : (1 : ℚ) ≤ x.significand := by exact_mod_cast significand_pos some
        have two : (0 : ℚ) < 2 ^ (x.exponent - 2) := zpow_pos (by norm_num) _
        rw [midpoint_magnitude]
        refine mul_pos ?_ two
        split <;> linarith
      refine Nat.pos_of_ne_zero ?_
      rintro rfl
      have value := rounds.between.1
      simp only [Nat.cast_zero, zero_mul] at value
      linarith
    · unfold shortest
      rw [if_neg (by simp [some])]
      simp only [found]

end Decimal
end EagerLoad
