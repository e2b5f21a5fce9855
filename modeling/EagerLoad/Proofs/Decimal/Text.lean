import EagerLoad.Proofs.Decimal.Shortest
import Mathlib.Data.List.TakeWhile

/-! # Reading decimal texts

A decimal text has a value, whatever layout it has, and the value of a number's text rounds to the number.
So numbers with the same text are the same. -/
namespace EagerLoad.Decimal

open Magnitude

/-- The value of digits with at most one point between them. -/
def pointedValue (cs : List Char) : ℚ :=
  Nat.ofDigitChars 10 (cs.filter (· ≠ '.')) 0 *
    10 ^ (-((cs.dropWhile (· ≠ '.')).length - 1 : ℕ) : ℤ)

/-- The power of ten that is written after the digits. -/
def writtenExponent : List Char → ℤ
  | 'e' :: '-' :: digits => -(Nat.ofDigitChars 10 digits 0 : ℤ)
  | 'e' :: '+' :: digits => Nat.ofDigitChars 10 digits 0
  | _ => 0

/-- The value of a decimal text without a sign. -/
def textValue (cs : List Char) : ℚ :=
  pointedValue (cs.takeWhile (· ≠ 'e')) * 10 ^ writtenExponent (cs.dropWhile (· ≠ 'e'))

/-- The value of digits of which the first stands at a power of ten. -/
def Digits.value (d : Digits) : ℚ :=
  Nat.ofDigitChars 10 d.digits 0 * 10 ^ (d.exponent + 1 - d.digits.length)

theorem ofDigitChars_zeros (n : ℕ) (digits : List Char) (init : ℕ) :
    Nat.ofDigitChars 10 (digits ++ List.replicate n '0') init =
      Nat.ofDigitChars 10 digits init * 10 ^ n := by
  rw [Nat.ofDigitChars_append]
  generalize Nat.ofDigitChars 10 digits init = value
  induction n generalizing value with
  | zero => simp
  | succ n ih =>
    rw [List.replicate_succ, Nat.ofDigitChars_cons, ih, pow_succ]
    have zero : '0'.toNat - '0'.toNat = 0 := rfl
    rw [zero]
    ring

theorem ofDigitChars_leading (n : ℕ) (digits : List Char) :
    Nat.ofDigitChars 10 (List.replicate n '0' ++ digits) 0 = Nat.ofDigitChars 10 digits 0 := by
  rw [Nat.ofDigitChars_append]
  have zeros := ofDigitChars_zeros n [] 0
  rw [List.nil_append] at zeros
  rw [zeros]
  simp

section Layout

variable {digits : List Char} (h : ∀ c ∈ digits, c.isDigit = true)
include h

private theorem ne_of_digit {x : Char} (other : x.isDigit = false) : ∀ c ∈ digits, c ≠ x := by
  rintro c found rfl
  exact absurd (h c found) (by simp [other])

/-- Digits without a point are a whole number. -/
theorem pointedValue_whole : pointedValue digits = Nat.ofDigitChars 10 digits 0 := by
  have free := ne_of_digit h (x := '.') rfl
  have kept : digits.filter (· ≠ '.') = digits := by
    rw [List.filter_eq_self]
    simpa using free
  have dropped : digits.dropWhile (· ≠ '.') = [] := by
    rw [List.dropWhile_eq_nil_iff]
    simpa using free
  rw [pointedValue, kept, dropped]
  simp

theorem pointedValue_parts {fraction : List Char} (hf : ∀ c ∈ fraction, c.isDigit = true) :
    pointedValue (digits ++ '.' :: fraction) =
      Nat.ofDigitChars 10 (digits ++ fraction) 0 * 10 ^ (-(fraction.length : ℤ)) := by
  have free := ne_of_digit h (x := '.') rfl
  have freeF := ne_of_digit hf (x := '.') rfl
  have kept (cs : List Char) (other : ∀ c ∈ cs, c ≠ '.') : cs.filter (· ≠ '.') = cs := by
    rw [List.filter_eq_self]
    simpa using other
  have dropped : (digits ++ '.' :: fraction).dropWhile (· ≠ '.') = '.' :: fraction := by
    rw [List.dropWhile_append_of_pos (by simpa using free), List.dropWhile_cons_of_neg (by simp)]
  rw [pointedValue, dropped, List.filter_append, kept digits free, List.filter_cons_of_neg (by simp),
    kept fraction freeF]
  simp

end Layout

theorem textValue_plain {cs : List Char} (plain : 'e' ∉ cs) : textValue cs = pointedValue cs := by
  have free : ∀ c ∈ cs, decide (c ≠ 'e') = true := by
    rintro c found
    rw [decide_eq_true_eq]
    rintro rfl
    exact plain found
  rw [textValue, List.takeWhile_eq_self_iff.mpr free, List.dropWhile_eq_nil_iff.mpr free]
  simp [writtenExponent]

theorem textValue_exponent {cs : List Char} (plain : 'e' ∉ cs) (rest : List Char) :
    textValue (cs ++ 'e' :: rest) = pointedValue cs * 10 ^ writtenExponent ('e' :: rest) := by
  have free : ∀ c ∈ cs, decide (c ≠ 'e') = true := by
    rintro c found
    rw [decide_eq_true_eq]
    rintro rfl
    exact plain found
  rw [textValue, List.takeWhile_append_of_pos free, List.dropWhile_append_of_pos free,
    List.takeWhile_cons_of_neg (by simp), List.dropWhile_cons_of_neg (by simp), List.append_nil]

namespace Digits

variable {d : Digits} (h : ∀ c ∈ d.digits, c.isDigit = true)
include h

omit h in
private theorem zeros_digits (n : ℕ) : ∀ c ∈ List.replicate n '0', c.isDigit = true := by
  intro c found
  obtain rfl := List.eq_of_mem_replicate found
  rfl

/-- Digits after the point, with zeros before them, are worth that much less. -/
private theorem pointedValue_leading (n : ℕ) :
    pointedValue ('0' :: '.' :: (List.replicate n '0' ++ d.digits)) =
      Nat.ofDigitChars 10 d.digits 0 * 10 ^ (-((n + d.digits.length : ℕ) : ℤ)) := by
  have zeros := zeros_digits n
  have fraction : ∀ c ∈ List.replicate n '0' ++ d.digits, c.isDigit = true := by
    intro c found
    exact (List.mem_append.mp found).elim (zeros c) (h c)
  have whole : ∀ c ∈ ['0'], c.isDigit = true := by simp
  have shape := pointedValue_parts whole fraction
  rw [List.singleton_append] at shape
  rw [shape, List.singleton_append, ← List.cons_append, ← List.replicate_succ,
    ofDigitChars_leading, List.length_append, List.length_replicate]

/-- Zeros after whole digits raise them by a power of ten, written with `.0` or not. -/
private theorem pointedValue_trailing (n : ℕ) (pointed : Bool) :
    pointedValue (d.digits ++ List.replicate n '0' ++ if pointed then ['.', '0'] else []) =
      Nat.ofDigitChars 10 d.digits 0 * 10 ^ n := by
  have zeros := zeros_digits n
  have all : ∀ c ∈ d.digits ++ List.replicate n '0', c.isDigit = true := by
    intro c found
    exact (List.mem_append.mp found).elim (h c) (zeros c)
  have total : pointedValue (d.digits ++ List.replicate n '0') =
      Nat.ofDigitChars 10 d.digits 0 * 10 ^ n := by
    rw [pointedValue_whole all, ofDigitChars_zeros]
    push_cast
    rfl
  cases pointed with
  | false => simpa using total
  | true =>
    have one : ∀ c ∈ ['0'], c.isDigit = true := by simp
    have tenth : (10 : ℚ) ^ (-(['0'].length : ℤ)) = 10⁻¹ := by norm_num
    have last := ofDigitChars_zeros 1 (d.digits ++ List.replicate n '0') 0
    rw [List.replicate_one] at last
    rw [if_pos rfl, pointedValue_parts all one, tenth, ← total, pointedValue_whole all, last]
    push_cast
    ring

theorem pointedValue_positional (pointed : Bool) :
    pointedValue (d.positional pointed) = d.value := by
  unfold positional value
  split
  · rename_i negative
    refine (pointedValue_leading h _).trans ?_
    congr 2
    omega
  · rename_i whole
    dsimp only
    split
    · rename_i fits
      have power : (10 : ℚ) ^ (d.exponent + 1 - d.digits.length) =
          10 ^ (d.exponent.toNat + 1 - d.digits.length) := by
        rw [← zpow_natCast]
        congr 1
        omega
      rw [power]
      exact pointedValue_trailing h _ pointed
    · rename_i beyond
      have first : ∀ c ∈ d.digits.take (d.exponent.toNat + 1), c.isDigit = true :=
        fun c found => h c (List.mem_of_mem_take found)
      have rest : ∀ c ∈ d.digits.drop (d.exponent.toNat + 1), c.isDigit = true :=
        fun c found => h c (List.mem_of_mem_drop found)
      rw [pointedValue_parts first rest, List.take_append_drop, List.length_drop]
      congr 2
      omega

theorem e_notMem_positional (pointed : Bool) : 'e' ∉ d.positional pointed := by
  have digits : 'e' ∉ d.digits := fun found => absurd (h 'e' found) (by decide)
  have zeros (n : ℕ) : 'e' ∉ List.replicate n '0' := fun found =>
    absurd (List.eq_of_mem_replicate found) (by decide)
  unfold positional
  split
  · simp [digits, zeros]
  · dsimp only
    split
    · cases pointed <;> simp [digits, zeros]
    · have first : 'e' ∉ d.digits.take (d.exponent.toNat + 1) := fun found =>
        digits (List.mem_of_mem_take found)
      have rest : 'e' ∉ d.digits.drop (d.exponent.toNat + 1) := fun found =>
        digits (List.mem_of_mem_drop found)
      simp [first, rest]

theorem textValue_scientific (some : d.digits ≠ []) : textValue d.scientific = d.value := by
  have power : writtenExponent ('e' :: (if d.exponent < 0 then '-' else '+') ::
      Nat.toDigits 10 d.exponent.natAbs) = d.exponent := by
    have read : Nat.ofDigitChars 10 (Nat.toDigits 10 d.exponent.natAbs) 0 = d.exponent.natAbs :=
      Nat.ofDigitChars_toDigits (by decide) (by decide)
    split
    · rw [writtenExponent, read]
      omega
    · rw [writtenExponent, read]
      omega
  have plain : 'e' ∉ d.digits := fun found => absurd (h 'e' found) (by decide)
  have ten : (10 : ℚ) ≠ 0 := by norm_num
  unfold scientific value
  cases shape : d.digits with
  | nil => exact absurd shape some
  | cons c rest =>
    rw [shape] at h plain
    cases rest with
    | nil =>
      rw [textValue_exponent plain, power, pointedValue_whole h]
      simp
    | cons c' rest =>
      have first : ∀ x ∈ [c], x.isDigit = true := by
        intro x found
        obtain rfl := List.mem_singleton.mp found
        exact h x List.mem_cons_self
      have others : ∀ x ∈ c' :: rest, x.isDigit = true := fun x found => h x (.tail c found)
      have lead := pointedValue_parts first others
      rw [List.singleton_append, List.singleton_append] at lead
      have free : 'e' ∉ c :: '.' :: c' :: rest := by
        simp only [List.mem_cons, not_or] at plain ⊢
        exact ⟨plain.1, by decide, plain.2⟩
      rw [textValue_exponent free, power, lead, mul_assoc, ← zpow_add₀ ten]
      congr 2
      simp only [List.length_cons]
      omega

theorem textValue_layout (some : d.digits ≠ []) (style : Style) :
    textValue (d.layout style) = d.value := by
  have positional (pointed : Bool) : textValue (d.positional pointed) = d.value := by
    rw [textValue_plain (e_notMem_positional h pointed), pointedValue_positional h]
  unfold layout
  split
  · split
    · exact positional _
    · exact textValue_scientific h some
  · exact positional _

end Digits

theorem eq_dropZeros_append (cs : List Char) : ∃ k, cs = dropZeros cs ++ List.replicate k '0' := by
  have zeros : cs.reverse.takeWhile (· == '0') =
      List.replicate (cs.reverse.takeWhile (· == '0')).length '0' := by
    rw [List.eq_replicate_length]
    intro c found
    simpa using List.mem_takeWhile_imp found
  refine ⟨(cs.reverse.takeWhile (· == '0')).length, ?_⟩
  have cut := List.takeWhile_append_dropWhile (p := (· == '0')) (l := cs.reverse)
  rw [← List.reverse_inj, dropZeros, List.reverse_append, List.reverse_reverse,
    List.reverse_replicate, ← zeros, cut]

/-- Whole numbers without their last zeros, the power of ten being that of their first digit, have the
same value. -/
theorem value_dropZeros {count : ℕ} (positive : 0 < count) (place : ℤ) :
    let d : Digits := ⟨dropZeros (Nat.toDigits 10 count),
      place + (Nat.toDigits 10 count).length - 1⟩
    d.digits ≠ [] ∧ (∀ c ∈ d.digits, c.isDigit = true) ∧ d.value = count * 10 ^ place := by
  obtain ⟨k, cut⟩ := eq_dropZeros_append (Nat.toDigits 10 count)
  have read : Nat.ofDigitChars 10 (Nat.toDigits 10 count) 0 = count :=
    Nat.ofDigitChars_toDigits (by decide) (by decide)
  have length := congrArg List.length cut
  have digits : ∀ c ∈ Nat.toDigits 10 count, c.isDigit = true := fun c found =>
    Nat.isDigit_of_mem_toDigits (by omega) (by omega) found
  rw [cut, ofDigitChars_zeros] at read
  rw [List.length_append, List.length_replicate] at length
  refine ⟨?_, ?_, ?_⟩
  · intro none
    rw [show dropZeros (Nat.toDigits 10 count) = [] from none] at read
    simp at read
    omega
  · intro c found
    rw [cut] at digits
    exact digits c (List.mem_append_left _ found)
  · have ten : (10 : ℚ) ≠ 0 := by norm_num
    have value : (count : ℚ) =
        Nat.ofDigitChars 10 (dropZeros (Nat.toDigits 10 count)) 0 * 10 ^ (k : ℤ) := by
      rw [zpow_natCast]
      exact_mod_cast read.symm
    rw [Digits.value, value, mul_assoc, ← zpow_add₀ ten]
    congr 2
    dsimp only
    omega

/-- The value of the text of a number without its sign: nothing for zero, and else a positive value that
rounds to the number. -/
theorem textValue_shortest (style : Style) (x : Binary64) :
    if x.isZero then textValue ((shortest style.tie x).layout style) = 0
    else 0 < textValue ((shortest style.tie x).layout style) ∧
      Rounds x.magnitude (textValue ((shortest style.tie x).layout style)) := by
  split
  · rename_i zero
    have digits : ∀ c ∈ (Digits.mk ['0'] 0).digits, c.isDigit = true := by simp
    rw [shortest, if_pos zero, Digits.textValue_layout digits (by simp)]
    simp [Digits.value, Nat.ofDigitChars_cons]
  · rename_i some
    obtain ⟨count, place, positive, shape, rounds⟩ := shortest_rounds style.tie (by simpa using some)
    obtain ⟨nonempty, digits, value⟩ := value_dropZeros positive place
    rw [shape, Digits.textValue_layout digits nonempty, value]
    refine ⟨?_, rounds⟩
    have ten : (0 : ℚ) < 10 ^ place := zpow_pos (by norm_num) _
    have cast : (0 : ℚ) < count := by exact_mod_cast positive
    exact mul_pos cast ten

theorem shortest_digits (t : Tie) (x : Binary64) :
    (shortest t x).digits ≠ [] ∧ ∀ c ∈ (shortest t x).digits, c.isDigit = true := by
  cases zero : x.isZero with
  | true =>
    rw [shortest, if_pos zero]
    exact ⟨by simp, by simp⟩
  | false =>
    obtain ⟨count, place, positive, shape, -⟩ := shortest_rounds t zero
    obtain ⟨nonempty, digits, -⟩ := value_dropZeros positive place
    rw [shape]
    exact ⟨nonempty, digits⟩

/-- A text without its sign begins with a digit. -/
theorem Digits.layout_head {d : Digits} (some : d.digits ≠ [])
    (h : ∀ c ∈ d.digits, c.isDigit = true) (style : Style) :
    ∃ c rest, d.layout style = c :: rest ∧ c.isDigit = true := by
  obtain ⟨c, rest, shape⟩ := List.exists_cons_of_ne_nil some
  have first : c.isDigit = true := h c (shape ▸ List.mem_cons_self)
  have positional (pointed : Bool) : ∃ c rest, d.positional pointed = c :: rest ∧
      c.isDigit = true := by
    unfold Digits.positional
    rw [shape]
    split
    · exact ⟨'0', _, rfl, rfl⟩
    · dsimp only
      split
      · exact ⟨c, _, rfl, first⟩
      · exact ⟨c, _, rfl, first⟩
  have scientific : ∃ c rest, d.scientific = c :: rest ∧ c.isDigit = true := by
    unfold Digits.scientific
    rw [shape]
    cases rest with
    | nil => exact ⟨c, _, rfl, first⟩
    | cons c' others => exact ⟨c, _, rfl, first⟩
  unfold Digits.layout
  split
  · split
    · exact positional _
    · exact scientific
  · exact positional _

/-- Whether a character may stand in a number. -/
def isNumeral (c : Char) : Bool := c.isDigit || c == '-' || c == '+' || c == '.' || c == 'e'

section Characters

variable {d : Digits} (h : ∀ c ∈ d.digits, c.isDigit = true)
include h

theorem Digits.layout_numeral (style : Style) : ∀ c ∈ d.layout style, isNumeral c = true := by
  have digit {cs : List Char} (known : ∀ c ∈ cs, c.isDigit = true) :
      ∀ c ∈ cs, isNumeral c = true := fun c found => by simp [isNumeral, known c found]
  have zeros (n : ℕ) : ∀ c ∈ List.replicate n '0', isNumeral c = true :=
    digit (Digits.zeros_digits n)
  have append {a b : List Char} (ha : ∀ c ∈ a, isNumeral c = true)
      (hb : ∀ c ∈ b, isNumeral c = true) : ∀ c ∈ a ++ b, isNumeral c = true :=
    fun c found => (List.mem_append.mp found).elim (ha c) (hb c)
  have positional (pointed : Bool) : ∀ c ∈ d.positional pointed, isNumeral c = true := by
    unfold Digits.positional
    split
    · exact append (a := ['0', '.']) (by simp [isNumeral]) (append (zeros _) (digit h))
    · dsimp only
      split
      · refine append (append (digit h) (zeros _)) ?_
        cases pointed <;> simp [isNumeral]
      · exact append (digit fun c found => h c (List.mem_of_mem_take found))
          (append (a := ['.']) (by simp [isNumeral])
            (digit fun c found => h c (List.mem_of_mem_drop found)))
  have scientific : ∀ c ∈ d.scientific, isNumeral c = true := by
    have power : ∀ c ∈ Nat.toDigits 10 d.exponent.natAbs, isNumeral c = true :=
      digit fun c found => Nat.isDigit_of_mem_toDigits (by omega) (by omega) found
    have sign : ∀ c ∈ ['e', if d.exponent < 0 then '-' else '+'], isNumeral c = true := by
      split <;> simp [isNumeral]
    unfold Digits.scientific
    refine append ?_ (append sign power)
    cases shape : d.digits with
    | nil => simp [isNumeral]
    | cons c rest =>
      rw [shape] at h
      have first : ∀ x ∈ [c], isNumeral x = true := digit fun x found =>
        h x (List.mem_singleton.mp found ▸ List.mem_cons_self)
      cases rest with
      | nil => exact first
      | cons c' rest =>
        exact append first (append (a := ['.']) (by simp [isNumeral])
          (digit fun x found => h x (List.mem_cons_of_mem c found)))
  unfold Digits.layout
  split
  · split
    · exact positional _
    · exact scientific
  · exact positional _

omit h in
/-- Where whole numbers keep a point, every text has a point or an exponent. -/
theorem Digits.layout_pointed {style : Style} (pointed : style.pointed = true) :
    '.' ∈ d.layout style ∨ 'e' ∈ d.layout style := by
  have positional : '.' ∈ d.positional style.pointed := by
    rw [pointed, Digits.positional]
    split
    · simp
    · dsimp only
      split <;> simp
  unfold Digits.layout
  split
  · split
    · exact .inl positional
    · exact .inr (by simp [Digits.scientific])
  · exact .inl positional

end Characters

theorem eq_zero_of_isZero {x : Binary64} (zero : x.isZero = true) : x.magnitude = 0 := by
  simp only [Binary64.isZero, Bool.and_eq_true, beq_iff_eq] at zero
  rw [Binary64.magnitude]
  omega

/-- Different numbers have different texts. -/
theorem text_inj {style : Style} {x y : Binary64} (same : text style x = text style y) : x = y := by
  have head (x : Binary64) : ∃ c rest, (shortest style.tie x).layout style = c :: rest ∧
      c ≠ '-' := by
    obtain ⟨nonempty, digits⟩ := shortest_digits style.tie x
    obtain ⟨c, rest, shape, digit⟩ := Digits.layout_head nonempty digits style
    refine ⟨c, rest, shape, ?_⟩
    rintro rfl
    exact absurd digit (by decide)
  obtain ⟨c, rest, hx, minus⟩ := head x
  obtain ⟨c', rest', hy, minus'⟩ := head y
  have parts : x.isNegative = y.isNegative ∧
      (shortest style.tie x).layout style = (shortest style.tie y).layout style := by
    have lists := congrArg String.toList same
    simp only [text, String.toList_ofList] at lists
    cases xs : x.isNegative <;> cases ys : y.isNegative <;> rw [xs, ys] at lists
    · exact ⟨rfl, lists⟩
    · rw [if_neg Bool.false_ne_true, if_pos rfl, hx] at lists
      exact absurd (List.cons.inj lists).1 minus
    · rw [if_neg Bool.false_ne_true, if_pos rfl, hy] at lists
      exact absurd (List.cons.inj lists).1.symm minus'
    · exact ⟨rfl, (List.cons.inj lists).2⟩
  refine Binary64.eq_of_magnitude parts.1 ?_
  have vx := textValue_shortest style x
  have vy := textValue_shortest style y
  rw [← parts.2] at vy
  by_cases zx : x.isZero = true <;> by_cases zy : y.isZero = true
  · rw [eq_zero_of_isZero zx, eq_zero_of_isZero zy]
  · rw [if_pos zx] at vx
    rw [if_neg zy] at vy
    exact absurd vx vy.1.ne'
  · rw [if_neg zx] at vx
    rw [if_pos zy] at vy
    exact absurd vy vx.1.ne'
  · rw [if_neg zx] at vx
    rw [if_neg zy] at vy
    exact vx.2.unique vy.2

end EagerLoad.Decimal
