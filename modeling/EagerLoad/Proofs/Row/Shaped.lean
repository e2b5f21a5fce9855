import EagerLoad.Proofs.Json.Lengths
import EagerLoad.Proofs.Row.Maps
import Mathlib.Logic.Function.Iterate

/-! # The shapes of decoded relations

A relation column decodes to a value of the declared shape, whatever the column holds, with one exception:
where one object is wanted, an array of one item is taken for that item without a look at it. An item that
is no object gets through, and what is decoded again is then something else. -/
namespace EagerLoad

/-- The values of a shape. -/
def Shape.admits : Shape → Json → Bool
  | one, .null => true
  | one, .obj _ => true
  | many, .arr _ => true
  | _, _ => false

namespace Shape

theorem admits_empty (shape : Shape) : shape.admits shape.empty = true := by
  cases shape <;> rfl

/-- No value has two shapes. -/
theorem eq_of_admits {shape other : Shape} {v : Json} (left : shape.admits v = true)
    (right : other.admits v = true) : shape = other := by
  cases shape <;> cases other <;> cases v <;> first | rfl | contradiction

end Shape

namespace Decode

variable {shape : Shape} {column : Json}

/-- What a column says. A text says what can be read from it. -/
def said? : Json → Option Json
  | .str text => Json.parse? text
  | column => some column

/-- Whether a column says a list of one item that is no object, where one object is wanted. -/
def Stray (shape : Shape) (column : Json) : Prop :=
  shape = .one ∧ ∃ item, said? column = some (.arr [item]) ∧ Shape.one.admits item = false

/-- A value decoded once more. -/
def again (shape : Shape) (v : Json) : Json := (value shape v).1

/-- What a column decodes to, present or not. -/
def settle (shape : Shape) : Option Json → Json
  | some column => again shape column
  | none => shape.empty

theorem value_of_said {v : Json} (said : said? column = some v) :
    (value shape column).1 = (fit shape v).1 := by
  cases column with
  | str text =>
    have parsed : Json.parse? text = some v := said
    simp only [value, parsed]
  | _ => obtain rfl := Option.some.inj said; rfl

theorem value_of_unsaid (unsaid : said? column = none) : (value shape column).1 = shape.empty := by
  cases column with
  | str text =>
    have malformed : Json.parse? text = none := unsaid
    simp only [value, malformed]
  | _ => exact nomatch unsaid

theorem admits_fit {v : Json} :
    shape.admits (fit shape v).1 = true ↔
      ¬(shape = .one ∧ ∃ item, v = .arr [item] ∧ Shape.one.admits item = false) := by
  cases shape with
  | many =>
    cases v <;> exact iff_of_true rfl nofun
  | one =>
    match v with
    | .arr [item] => simp [fit]
    | .arr [] => simp [fit, Shape.empty, Shape.admits]
    | .arr (_ :: _ :: _) => simp [fit, Shape.empty, Shape.admits]
    | .obj _ | .null | .bool _ | .int _ | .float _ | .str _ => simp [fit, Shape.empty, Shape.admits]

/-- Decoding fits every column to the shape, except the stray ones. -/
theorem admits_value : shape.admits (value shape column).1 = true ↔ ¬Stray shape column := by
  unfold Stray
  cases said : said? column with
  | none =>
    rw [value_of_unsaid said]
    exact iff_of_true shape.admits_empty (by simp)
  | some v =>
    rw [value_of_said said, admits_fit]
    simp

/-- A value of the shape stays as it is. -/
theorem value_of_admits {v : Json} (fits : shape.admits v = true) : (value shape v).1 = v := by
  cases shape <;> cases v <;> first | rfl | contradiction

/-- A value that is no object decodes to another one. -/
theorem value_ne {item : Json} (other : Shape.one.admits item = false) :
    (value .one item).1 ≠ item := by
  intro same
  have stray : Stray .one item := not_not.mp fun tidy => by
    rw [← admits_value, same, other] at tidy
    contradiction
  obtain ⟨-, inner, said, -⟩ := stray
  rw [value_of_said said] at same
  have inside : inner = item := same
  cases item with
  | str text => exact Json.parse?_ne_self text (inside ▸ said)
  | arr items =>
    have nested : items = [inner] := Json.arr.inj (Option.some.inj said)
    rw [nested] at inside
    have smaller := congrArg sizeOf inside
    simp only [Json.arr.sizeOf_spec, List.cons.sizeOf_spec, List.nil.sizeOf_spec] at smaller
    omega
  | _ => exact nomatch said

/-- Decoding again changes nothing, except after a stray column. -/
theorem value_value :
    (value shape (value shape column).1).1 = (value shape column).1 ↔ ¬Stray shape column := by
  rw [← admits_value]
  constructor
  · intro same
    by_contra misfit
    have stray : Stray shape column := not_not.mp fun tidy => misfit (admits_value.mpr tidy)
    obtain ⟨rfl, -⟩ := stray
    exact value_ne (Bool.eq_false_of_not_eq_true misfit) same
  · exact value_of_admits

/-! ## Rows -/

/-- A column that a label lists is decoded once for each time that it is listed. -/
theorem get?_row (layout : Layout) (r : Row) (x : String) :
    (row layout r).1.get? x =
      (layout.filter fun slot => slot.label = x).foldl (fun c slot => some (settle slot.shape c))
        (r.get? x) := by
  induction layout generalizing r with
  | nil => rfl
  | cons s rest ih =>
    have here : (slot r s).1.get? x =
        if x = s.label then some (settle s.shape (r.get? x)) else r.get? x := by
      rw [slot, Row.get?_set]
      split
      · rename_i same
        rw [same]
        cases r.get? s.label <;> rfl
      · rfl
    change (row rest (slot r s).1).1.get? x = _
    rw [ih, here]
    by_cases same : s.label = x
    · rw [if_pos same.symm, List.filter_cons_of_pos (by simpa using same), List.foldl_cons]
    · rw [if_neg fun h => same h.symm, List.filter_cons_of_neg (by simpa using same)]

theorem foldl_settle {slots : List Slot} (same : ∀ t ∈ slots, t.shape = shape) (v : Json) :
    slots.foldl (fun c t => some (settle t.shape c)) (some v) =
      some ((again shape)^[slots.length] v) := by
  induction slots generalizing v with
  | nil => rfl
  | cons t rest ih =>
    obtain ⟨here, later⟩ := List.forall_mem_cons.mp same
    rw [List.foldl_cons, List.length_cons, Function.iterate_succ_apply, here]
    exact ih later (again shape v)

section Uniform

variable {layout : Layout} {s : Slot} (listed : s ∈ layout)
  (uniform : ∀ t ∈ layout, t.label = s.label → t.shape = s.shape)
include listed uniform

/-- A label that is listed with one shape only gets the value that its column decodes to in the end. -/
theorem get?_row_of_uniform (r : Row) :
    (row layout r).1.get? s.label = some ((again s.shape)^[layout.countP (·.label = s.label) - 1]
      (settle s.shape (r.get? s.label))) := by
  have same : ∀ t ∈ layout.filter fun t => t.label = s.label, t.shape = s.shape := by
    intro t found
    obtain ⟨known, label⟩ := List.mem_filter.mp found
    exact uniform t known (of_decide_eq_true label)
  have present : s ∈ layout.filter fun t => t.label = s.label :=
    List.mem_filter.mpr ⟨listed, decide_eq_true rfl⟩
  rw [get?_row, List.countP_eq_length_filter]
  cases slots : layout.filter fun t => t.label = s.label with
  | nil => rw [slots] at present; exact nomatch present
  | cons first others =>
    rw [slots] at same
    obtain ⟨here, later⟩ := List.forall_mem_cons.mp same
    rw [List.foldl_cons, foldl_settle later, here, List.length_cons, Nat.add_sub_cancel]

/-- Only the last time that a column is decoded counts for its shape. -/
theorem admits_row (r : Row) :
    (∃ v, (row layout r).1.get? s.label = some v ∧ s.shape.admits v = true) ↔
      ∀ column, r.get? s.label = some column →
        ¬Stray s.shape ((again s.shape)^[layout.countP (·.label = s.label) - 1] column) := by
  rw [get?_row_of_uniform listed uniform]
  cases held : r.get? s.label with
  | none =>
    have stays : (again s.shape)^[layout.countP (·.label = s.label) - 1] s.shape.empty =
        s.shape.empty := Function.iterate_fixed (value_of_admits s.shape.admits_empty) _
    simp [settle, stays, s.shape.admits_empty]
  | some column =>
    simp only [Option.some.injEq, forall_eq', exists_eq_left', settle,
      ← Function.iterate_succ_apply, Function.iterate_succ_apply']
    exact admits_value

end Uniform

/-- Whether a row that is decoded has a value of its shape for every slot of the layout. -/
def Shaped (layout : Layout) (r : Row) : Prop :=
  ∀ s ∈ layout, ∃ v, (row layout r).1.get? s.label = some v ∧ s.shape.admits v = true

theorem shaped_iff (layout : Layout) (r : Row) :
    Shaped layout r ↔
      (∀ s ∈ layout, ∀ t ∈ layout, t.label = s.label → t.shape = s.shape) ∧
        ∀ s ∈ layout, ∀ column, r.get? s.label = some column →
          ¬Stray s.shape ((again s.shape)^[layout.countP (·.label = s.label) - 1] column) := by
  constructor
  · intro shaped
    have uniform : ∀ s ∈ layout, ∀ t ∈ layout, t.label = s.label → t.shape = s.shape := by
      intro s listed t other same
      obtain ⟨v, here, fits⟩ := shaped s listed
      obtain ⟨w, there, others⟩ := shaped t other
      rw [same, here] at there
      obtain rfl := Option.some.inj there
      exact Shape.eq_of_admits others fits
    exact ⟨uniform, fun s listed => (admits_row listed (uniform s listed) r).mp (shaped s listed)⟩
  · rintro ⟨uniform, tidy⟩ s listed
    exact (admits_row listed (uniform s listed) r).mpr (tidy s listed)

/-- A column decodes to a value of its shape, and to the same when it is decoded again, exactly if it is
not stray. So a row gets a value of its shape for every slot of a layout unless the layout gives a label two
shapes or a column is stray when it is decoded for the last time. -/
theorem decodes_shaped (shape : Shape) (column : Json) (layout : Layout) (r : Row) :
    (shape.admits (value shape column).1 = true ↔ ¬Stray shape column) ∧
      ((value shape (value shape column).1).1 = (value shape column).1 ↔ ¬Stray shape column) ∧
      (Shaped layout r ↔
        (∀ s ∈ layout, ∀ t ∈ layout, t.label = s.label → t.shape = s.shape) ∧
          ∀ s ∈ layout, ∀ column, r.get? s.label = some column →
            ¬Stray s.shape ((again s.shape)^[layout.countP (·.label = s.label) - 1] column)) :=
  ⟨admits_value, value_value, shaped_iff layout r⟩

/-- Whether every column decodes to a value of the shape that is wanted. -/
def AlwaysShaped : Prop := ∀ (shape : Shape) (column : Json), shape.admits (value shape column).1 = true

/-- A number in a list of one is taken for an object, and is gone when it is decoded again. -/
theorem not_alwaysShaped_number :
    ¬AlwaysShaped ∧ (value .one (.arr [.int 5])).1 = .int 5 ∧ (value .one (.int 5)).1 = .null := by
  refine ⟨fun always => ?_, rfl, rfl⟩
  have shaped := always .one (.arr [.int 5])
  contradiction

end Decode
end EagerLoad
