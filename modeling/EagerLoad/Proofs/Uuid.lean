import Mathlib.Algebra.Group.Nat.Defs
import Mathlib.Data.List.Basic
import EagerLoad.Uuid

/-! # Identifiers have texts of their own

The hyphens stand between digits, so without them a text is the thirty-two digits of the number. -/
namespace EagerLoad.Uuid

/-- Two numbers with the same last digits agree up to the places of these digits. -/
theorem mod_pow_eq_of_digits {m n count : Nat}
    (same : ∀ i < count, m / 16 ^ i % 16 = n / 16 ^ i % 16) : m % 16 ^ count = n % 16 ^ count := by
  induction count with
  | zero => simp [Nat.mod_one]
  | succ count ih =>
    rw [Nat.pow_succ, Nat.mod_mul, Nat.mod_mul, ih fun i h => same i (Nat.lt_succ_of_lt h),
      same count (Nat.lt_succ_self count)]

theorem digits_inj {u v : Uuid} (same : u.digits = v.digits) : u = v := by
  have one : ∀ m < 16, ∀ n < 16, Nat.digitChar m = Nat.digitChar n → m = n := by decide
  have places : ∀ i < 32, u.bits.toNat / 16 ^ i % 16 = v.bits.toNat / 16 ^ i % 16 := by
    intro i h
    have here := List.map_inj_left.mp same (31 - i) (List.mem_range.mpr (by omega))
    have place : 31 - (31 - i) = i := by omega
    simp only [place] at here
    exact one _ (Nat.mod_lt _ (by decide)) _ (Nat.mod_lt _ (by decide)) here
  have whole := mod_pow_eq_of_digits places
  have bound : (16 : Nat) ^ 32 = 2 ^ 128 := by decide
  rw [bound, Nat.mod_eq_of_lt u.bits.isLt, Nat.mod_eq_of_lt v.bits.isLt] at whole
  cases u
  cases v
  exact congrArg Uuid.mk (BitVec.eq_of_toNat_eq whole)

theorem hyphen_notMem_digits (u : Uuid) : '-' ∉ u.digits := by
  have digit : ∀ n < 16, Nat.digitChar n ≠ '-' := by decide
  rw [digits, List.mem_map]
  rintro ⟨i, -, hyphen⟩
  exact digit _ (Nat.mod_lt _ (by decide)) hyphen

/-- The text without its hyphens. -/
theorem filter_text (u : Uuid) : u.text.toList.filter (· ≠ '-') = u.digits := by
  have kept {cs : List Char} (h : cs ⊆ u.digits) : cs.filter (· ≠ '-') = cs := by
    rw [List.filter_eq_self]
    intro c found
    rw [decide_eq_true_eq]
    rintro rfl
    exact u.hyphen_notMem_digits (h found)
  have within (start count : Nat) : (u.digits.drop start).take count ⊆ u.digits :=
    List.Subset.trans (List.take_subset _ _) (List.drop_subset _ _)
  have drop (start count : Nat) : (u.digits.drop start).take count ++ u.digits.drop (start + count) =
      u.digits.drop start := by
    rw [← List.drop_drop, List.take_append_drop]
  have shape : u.text.toList.filter (· ≠ '-') = u.digits.take 8 ++ ((u.digits.drop 8).take 4 ++
      ((u.digits.drop 12).take 4 ++ ((u.digits.drop 16).take 4 ++ u.digits.drop 20))) := by
    simp only [text, String.toList_ofList, List.filter_append, List.filter_cons_of_neg, ne_eq,
      decide_not, decide_true, Bool.not_true, Bool.false_eq_true, not_false_eq_true]
    simp only [← decide_not]
    rw [kept (List.take_subset _ _), kept (within 8 4), kept (within 12 4), kept (within 16 4),
      kept (List.drop_subset _ _)]
  rw [shape, drop 16 4, drop 12 4, drop 8 4, List.take_append_drop]

theorem text_inj {u v : Uuid} (same : u.text = v.text) : u = v := by
  apply digits_inj
  rw [← filter_text, ← filter_text, same]

end EagerLoad.Uuid
