import EagerLoad.Proofs.Decimal.Text
import EagerLoad.Proofs.Text
import EagerLoad.Time.Instant

/-! # Instants have texts of their own

A day is found again from its date, numbers with leading zeros end before the mark after them, and only
the last second of a minute can be a leap second. -/
namespace EagerLoad

namespace Calendar

/-- The year of a day, counted within four hundred years from the first of March. -/
private def yearOf (day : Nat) : Nat :=
  (day - day / 1460 + day / 36524 - day / 146096) / 365

private def daysBefore (year : Nat) : Nat := 365 * year + year / 4 - year / 100

private theorem yearOf_mono {m n : Nat} (h : m ≤ n) : yearOf m ≤ yearOf n := by
  induction n, h using Nat.le_induction with
  | base => exact Nat.le_refl _
  | succ n _ ih =>
    refine Nat.le_trans ih ?_
    unfold yearOf
    omega

/-- A year has at most 366 days. -/
private theorem daysBefore_yearOf {day : Nat} (inEra : day < 146097) :
    yearOf day < 400 ∧ daysBefore (yearOf day) ≤ day ∧ day < daysBefore (yearOf day) + 366 := by
  have starts : ∀ year < 400, yearOf (daysBefore (year + 1) - 1) < year + 1 ∧
      year < yearOf (daysBefore year + 366) := by decide +kernel
  have small : yearOf day < 400 := by
    unfold yearOf
    omega
  refine ⟨small, ?_, ?_⟩
  · by_contra early
    cases year : yearOf day with
    | zero => simp [daysBefore, year] at early
    | succ previous =>
      have earlier : day ≤ daysBefore (previous + 1) - 1 := by
        rw [year] at early
        omega
      have bound := (starts previous (by omega)).1
      have mono := yearOf_mono earlier
      omega
  · by_contra late
    have later := yearOf_mono (Nat.le_of_not_lt late)
    have bound := (starts _ small).2
    omega

theorem daysFromCivil_civilFromDays (days : Int) :
    daysFromCivil (civilFromDays days).1 (civilFromDays days).2.1 (civilFromDays days).2.2 =
      days := by
  have four : (0 : Int) ≤ 400 := by decide
  have era : (0 : Int) ≤ 146097 := by decide
  simp only [civilFromDays, daysFromCivil, Int.fdiv_eq_ediv_of_nonneg _ era,
    Int.fdiv_eq_ediv_of_nonneg _ four]
  generalize era_eq : (days + 719468) / 146097 = era
  generalize day_eq : (days + 719468 - era * 146097).toNat = day
  have inEra : day < 146097 := by omega
  have whole : (day : Int) = days + 719468 - era * 146097 := by omega
  obtain ⟨small, before, within⟩ := daysBefore_yearOf inEra
  have unfolded : (day - day / 1460 + day / 36524 - day / 146096) / 365 = yearOf day := rfl
  simp only [unfolded]
  generalize yearOf day = year at small before within ⊢
  obtain ⟨yearDay, rfl⟩ := Nat.exists_eq_add_of_le before
  have start : 365 * year + year / 4 - year / 100 = daysBefore year := rfl
  have cut : daysBefore year + yearDay - daysBefore year = yearDay := by omega
  simp only [start, cut]
  have inYear : yearDay < 366 := by omega
  have quotient : ((year : Int) + era * 400) / 400 = era := by omega
  generalize month_eq : (5 * yearDay + 2) / 153 = month
  have months : month < 12 := by omega
  have early : month < 10 → (month + 3 + 9) % 12 = month := by omega
  have late : ¬month < 10 → (month - 9 + 9) % 12 = month := by omega
  have monthDay : (153 * month + 2) / 5 ≤ yearDay := by omega
  have total : (daysBefore year : Int) = year * 365 + year / 4 - year / 100 := by
    unfold daysBefore
    omega
  split_ifs with first march march
  · omega
  · rw [early first, quotient, Int.add_sub_cancel]
    omega
  · rw [late first, Int.add_sub_cancel, quotient, Int.add_sub_cancel]
    omega
  · omega

end Calendar

namespace Instant

open Calendar

section Numbers

theorem padded_digits (width n : Nat) : ∀ c ∈ padded width n, c.isDigit = true := by
  intro c found
  obtain zero | digit := List.mem_append.mp found
  · rw [List.eq_of_mem_replicate zero]
    rfl
  · exact Nat.isDigit_of_mem_toDigits (by decide) (by decide) digit

theorem padded_ne_nil (width n : Nat) : padded width n ≠ [] :=
  List.append_ne_nil_of_right_ne_nil _ Nat.toDigits_ne_nil

/-- The value of digits does not depend on leading zeros. -/
theorem ofDigitChars_padded (width n : Nat) : Nat.ofDigitChars 10 (padded width n) 0 = n := by
  rw [padded, Decimal.ofDigitChars_leading]
  exact Nat.ofDigitChars_toDigits (by decide) (by decide)

theorem padded_inj {width other m n : Nat} (same : padded width m = padded other n) : m = n := by
  rw [← ofDigitChars_padded width m, same, ofDigitChars_padded]

theorem length_padded {width n : Nat} (some : 0 < width) (h : n < 10 ^ width) :
    (padded width n).length = width := by
  have short : (Nat.toDigits 10 n).length ≤ width :=
    (Nat.length_toDigits_le_iff (by decide) some).mpr h
  rw [padded, List.length_append, List.length_replicate]
  omega

/-- A number ends before the mark after it. -/
theorem padded_append_inj {width other m n : Nat} {c d : Char} {x y : List Char}
    (mark : c.isDigit = false) (otherMark : d.isDigit = false)
    (same : padded width m ++ c :: x = padded other n ++ d :: y) : m = n ∧ c = d ∧ x = y := by
  obtain ⟨digits, marks, rest⟩ := Text.cut_inj (fun c => c.isDigit = false)
    (fun z found => by simp [padded_digits width m z found])
    (fun z found => by simp [padded_digits other n z found]) mark otherMark same
  exact ⟨padded_inj digits, marks, rest⟩

end Numbers

theorem yearText_shape (year : Int) :
    0 ≤ year ∧ (yearText year = padded 4 year.natAbs ∨ yearText year = '+' :: padded 4 year.natAbs) ∨
      year < 0 ∧ yearText year = '-' :: padded 4 year.natAbs := by
  unfold yearText
  by_cases early : year < 0
  · have outside : ¬(0 ≤ year ∧ year ≤ 9999) := by omega
    rw [if_neg outside, if_pos early]
    exact .inr ⟨early, rfl⟩
  · have whole : year.toNat = year.natAbs := by omega
    rw [if_neg early, whole]
    refine .inl ⟨by omega, ?_⟩
    split
    · exact .inl rfl
    · exact .inr rfl

/-- A year before the year zero begins with a minus, one of more than four digits with a plus. -/
theorem yearText_append_inj {year other : Int} {x y : List Char}
    (same : yearText year ++ '-' :: x = yearText other ++ '-' :: y) : year = other ∧ x = y := by
  have unsigned {n : Nat} {sign : Char} (h : sign.isDigit = false) {x y : List Char} :
      padded 4 n ++ '-' :: x ≠ sign :: y := by
    intro same
    have digits := padded_digits 4 n
    obtain ⟨c, rest, shape⟩ := List.exists_cons_of_ne_nil (padded_ne_nil 4 n)
    rw [shape] at same digits
    obtain ⟨rfl, -⟩ := List.cons.inj same
    exact absurd (digits c List.mem_cons_self) (by simp [h])
  have numbers {m n : Nat} (same : padded 4 m ++ '-' :: x = padded 4 n ++ '-' :: y) :
      m = n ∧ x = y := by
    obtain ⟨value, -, rest⟩ := padded_append_inj rfl rfl same
    exact ⟨value, rest⟩
  obtain ⟨late, left | left⟩ | ⟨early, left⟩ := yearText_shape year <;>
    obtain ⟨later, right | right⟩ | ⟨earlier, right⟩ := yearText_shape other <;>
    rw [left, right] at same
  · obtain ⟨value, rest⟩ := numbers same
    exact ⟨by omega, rest⟩
  · exact absurd same (unsigned rfl)
  · exact absurd same (unsigned rfl)
  · exact absurd same.symm (unsigned rfl)
  · obtain ⟨value, rest⟩ := numbers (List.cons.inj same).2
    exact ⟨by omega, rest⟩
  · exact absurd (List.cons.inj same).1 (by decide)
  · exact absurd same.symm (unsigned rfl)
  · exact absurd (List.cons.inj same).1 (by decide)
  · obtain ⟨value, rest⟩ := numbers (List.cons.inj same).2
    exact ⟨by omega, rest⟩

/-- The digits of a fraction, as many as are written, are so many of a thousand million. -/
theorem fraction_value {nanos : Nat} (h : nanos < 1000000000) :
    Nat.ofDigitChars 10 ((fractionText nanos).drop 1) 0 * 10 ^ (10 - (fractionText nanos).length) =
      nanos := by
  have read (width n : Nat) (some : 0 < width) (small : n < 10 ^ width) :
      Nat.ofDigitChars 10 (('.' :: padded width n).drop 1) 0 *
        10 ^ (10 - ('.' :: padded width n).length) = n * 10 ^ (9 - width) := by
    rw [List.drop_one, List.tail_cons, ofDigitChars_padded, List.length_cons,
      length_padded some small, Nat.add_comm width 1, ← Nat.sub_sub]
  by_cases none : nanos = 0
  · rw [fractionText, if_pos none, none]
    exact Nat.zero_mul _
  by_cases millis : nanos % 1000000 = 0
  · rw [fractionText, if_neg none, if_pos millis, read 3 _ (by decide) (by omega)]
    omega
  by_cases micros : nanos % 1000 = 0
  · rw [fractionText, if_neg none, if_neg millis, if_pos micros, read 6 _ (by decide) (by omega)]
    omega
  · rw [fractionText, if_neg none, if_neg millis, if_neg micros, read 9 _ (by decide) h]
    exact Nat.mul_one nanos

theorem fractionText_inj {m n : Nat} (hm : m < 1000000000) (hn : n < 1000000000)
    (same : fractionText m = fractionText n) : m = n := by
  rw [← fraction_value hm, same, fraction_value hn]

theorem exists_fraction_mark (n : Nat) :
    ∃ c rest, fractionText n ++ ['Z'] = c :: rest ∧ c.isDigit = false := by
  unfold fractionText
  split_ifs
  · exact ⟨'Z', [], rfl, rfl⟩
  · exact ⟨'.', _, rfl, rfl⟩
  · exact ⟨'.', _, rfl, rfl⟩
  · exact ⟨'.', _, rfl, rfl⟩

/-- The parts of a text: the date, the time, the second with a leap second, and the nanoseconds. -/
theorem body_inj {i j : Instant} (same : i.body ++ ['Z'] = j.body ++ ['Z']) : i = j := by
  have day : (0 : Int) ≤ 86400 := by decide
  simp only [body, Int.fdiv_eq_ediv_of_nonneg _ day, Int.fmod_eq_emod_of_nonneg _ day,
    List.append_assoc, List.cons_append] at same
  obtain ⟨years, same⟩ := yearText_append_inj same
  obtain ⟨months, -, same⟩ := padded_append_inj rfl rfl same
  obtain ⟨days, -, same⟩ := padded_append_inj rfl rfl same
  obtain ⟨hours, -, same⟩ := padded_append_inj rfl rfl same
  obtain ⟨minutes, -, same⟩ := padded_append_inj rfl rfl same
  have dates : i.secs / 86400 = j.secs / 86400 := by
    rw [← daysFromCivil_civilFromDays (i.secs / 86400), years, months, days,
      daysFromCivil_civilFromDays]
  obtain ⟨c, x, left, mark⟩ := exists_fraction_mark
    (if 1000000000 ≤ i.nanos then i.nanos - 1000000000 else i.nanos)
  obtain ⟨d, y, right, otherMark⟩ := exists_fraction_mark
    (if 1000000000 ≤ j.nanos then j.nanos - 1000000000 else j.nanos)
  rw [left, right] at same
  obtain ⟨seconds, rfl, rfl⟩ := padded_append_inj mark otherMark same
  have fractions := List.append_cancel_right (left.trans right.symm)
  have leapI := i.leap
  have leapJ := j.leap
  have nanos := fractionText_inj (by split_ifs <;> omega) (by split_ifs <;> omega) fractions
  have flags : 1000000000 ≤ i.nanos ↔ 1000000000 ≤ j.nanos := by
    split_ifs at seconds <;> omega
  have equalNanos : i.nanos = j.nanos := by
    split_ifs at nanos <;> omega
  have equalSecs : i.secs = j.secs := by
    split_ifs at seconds <;> omega
  cases i
  cases j
  simp only [mk.injEq]
  exact ⟨equalSecs, equalNanos⟩

theorem markedText_inj {i j : Instant} (same : i.markedText = j.markedText) : i = j :=
  body_inj (by simpa [markedText] using congrArg String.toList same)

end Instant
end EagerLoad
