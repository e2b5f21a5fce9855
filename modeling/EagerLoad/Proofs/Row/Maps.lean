import EagerLoad.Proofs.Ordered
import EagerLoad.Row.Decode
import EagerLoad.Row.Merge

/-! # Rows as maps

Rows are compared by what their columns hold, whatever the order of the columns. Setting, removing,
taking and decoding columns depend on nothing else. -/
namespace EagerLoad

namespace Row

@[simp] theorem get?_set (row : Row) (column x : String) (value : Json) :
    (row.set column value).get? x = if x = column then some value else row.get? x :=
  lookup_upsert column x value row

@[simp] theorem get?_remove (row : Row) (column x : String) :
    (row.remove column).get? x = if x = column then none else row.get? x := by
  have kept := lookup_filter_key (fun k => k != column) row x
  by_cases same : x = column
  · simpa [remove, get?, same] using kept
  · simpa [remove, get?, same] using kept

theorem get?_foldl_remove (columns : List String) (row : Row) (x : String) :
    (columns.foldl remove row).get? x = if x ∈ columns then none else row.get? x := by
  induction columns generalizing row with
  | nil => simp
  | cons column rest ih =>
    rw [List.foldl_cons, ih, get?_remove]
    by_cases here : x = column <;> simp [here]

private theorem get?_foldl (moved : String → Option Json) (step : Row → String → Row)
    (each : ∀ row column x, (step row column).get? x =
      if x = column then (moved x).or (row.get? x) else row.get? x)
    (columns : List String) (row : Row) (x : String) :
    (columns.foldl step row).get? x =
      if x ∈ columns then (moved x).or (row.get? x) else row.get? x := by
  induction columns generalizing row with
  | nil => simp
  | cons column rest ih =>
    rw [List.foldl_cons, ih, each]
    by_cases h : x = column
    · cases found : moved x <;> simp [h]
    · simp [h]

/-- Taking columns moves those that the incoming row has. -/
@[simp] theorem get?_take (columns : List String) (row incoming : Row) (x : String) :
    (row.take columns incoming).get? x =
      if x ∈ columns then (incoming.get? x).or (row.get? x) else row.get? x := by
  unfold take
  rw [get?_foldl incoming.get?]
  · simp only [mem_distinct]
  · intro row column x
    by_cases h : x = column
    · subst h
      cases found : incoming.get? x <;> simp
    · cases found : incoming.get? column <;> simp [h]

theorem get?_eq_none (row : Row) {x : String} (h : x ∉ row.map (·.1)) : row.get? x = none := by
  rw [get?, List.lookup_eq_none_iff]
  intro entry found
  rw [bne_iff_ne]
  rintro rfl
  exact h (List.mem_map_of_mem found)

/-- Whether two rows hold the same columns with the same values. -/
def Same (a b : Row) : Prop := ∀ x, a.get? x = b.get? x

/-- Whether two rows hold the same in all but the listed columns. -/
def SameBut (columns : List String) (a b : Row) : Prop := ∀ x ∉ columns, a.get? x = b.get? x

namespace SameBut

variable {columns : List String}

theorem refl (a : Row) : SameBut columns a a := fun _ _ => rfl

theorem trans {a b c : Row} (first : SameBut columns a b) (second : SameBut columns b c) :
    SameBut columns a c :=
  fun x other => (first x other).trans (second x other)

theorem mono {more : List String} {a b : Row} (h : SameBut columns a b) (subset : columns ⊆ more) :
    SameBut more a b :=
  fun x other => h x fun listed => other (subset listed)

end SameBut

theorem take_sameBut (columns : List String) (row incoming : Row) :
    SameBut columns row (row.take columns incoming) := by
  intro x other
  rw [get?_take, if_neg other]

end Row

/-- Whether two rows hold the same columns, those of the relations of a layout up to decoding. -/
def Layout.Agree (layout : Layout) (a b : Row) : Prop :=
  ∀ x, a.get? x = b.get? x ∨
    (∃ slot ∈ layout, slot.label = x) ∧ ∃ v w, a.get? x = some v ∧ b.get? x = some w ∧
      ∀ shape, (Decode.value shape v).1 = (Decode.value shape w).1

namespace Decode

/-- Rows that agree decode to the same row. -/
theorem same_of_agree (layout : Layout) (a b : Row) (h : layout.Agree a b) :
    Row.Same (row layout a).1 (row layout b).1 := by
  induction layout generalizing a b with
  | nil =>
    intro x
    obtain equal | ⟨⟨slot, found, -⟩, -⟩ := h x
    · exact equal
    · exact absurd found (by simp)
  | cons s rest ih =>
    have decoded : (slot a s).1.get? s.label = (slot b s).1.get? s.label := by
      obtain equal | ⟨-, v, w, left, right, values⟩ := h s.label
      · simp [slot, equal]
      · simp [slot, left, right, values]
    have agree : Layout.Agree rest (slot a s).1 (slot b s).1 := by
      intro x
      by_cases here : x = s.label
      · subst here
        exact .inl decoded
      · have left : (slot a s).1.get? x = a.get? x := by simp [slot, here]
        have right : (slot b s).1.get? x = b.get? x := by simp [slot, here]
        rw [left, right]
        obtain equal | ⟨⟨other, found, named⟩, values⟩ := h x
        · exact .inl equal
        · refine .inr ⟨⟨other, ?_, named⟩, values⟩
          obtain rfl | later := List.mem_cons.mp found
          · exact absurd named.symm here
          · exact later
    exact ih _ _ agree

/-- Decoding changes nothing but the columns of the layout. -/
theorem row_sameBut (layout : Layout) (r : Row) :
    Row.SameBut (layout.map Slot.label) r (row layout r).1 := by
  induction layout generalizing r with
  | nil => exact .refl r
  | cons s rest ih =>
    have here : Row.SameBut ((s :: rest).map Slot.label) r (slot r s).1 := by
      intro x other
      rw [slot, Row.get?_set, if_neg fun same => other (by simp [same])]
    exact here.trans ((ih _).mono (by simp))

theorem rows_fst (layout : Layout) (rs : List Row) :
    (rows layout rs).1 = rs.map fun r => (row layout r).1 := by
  simp [rows]

end Decode
end EagerLoad
