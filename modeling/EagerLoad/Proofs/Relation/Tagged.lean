import EagerLoad.Plan.Basic
import EagerLoad.Proofs.Filter.Tagged

/-! # Requests are read off their written forms

The requests of a plan are told apart by what is written of them, their filters included. -/
namespace EagerLoad

theorem strings_isFinite (names : List String) : Json.itemsFinite (names.map .str) = true := by
  rw [Json.itemsFinite_iff]
  intro item found
  obtain ⟨name, -, rfl⟩ := List.mem_map.mp found
  rfl

theorem strings_inj {names others : List String} (same : names.map Json.str = others.map Json.str) :
    names = others :=
  map_inj_on (fun _ _ _ _ equal => Json.str.inj equal) same

theorem Json.ofOption_str_isFinite (s : Option String) : (ofOption .str s).isFinite = true := by
  cases s <;> rfl

theorem Json.ofOption_nat_isFinite (n : Option Nat) : (ofOption ofNat n).isFinite = true := by
  cases n <;> rfl

theorem RelationKind.tag_inj {a b : RelationKind} (same : a.tag = b.tag) : a = b := by
  cases a <;> cases b <;> first | rfl | simp [tag] at same

theorem AggregateFunction.tag_inj {a b : AggregateFunction} (same : a.tag = b.tag) : a = b := by
  cases a <;> cases b <;> first | rfl | simp [tag] at same

namespace ColumnSelection

theorem toJson_isFinite (selection : ColumnSelection) : selection.toJson.isFinite = true := by
  cases selection with
  | all => rfl
  | columns names => simp [toJson, Json.isFinite, Json.fieldsFinite, strings_isFinite names]

theorem toJson_inj {a b : ColumnSelection} (same : a.toJson = b.toJson) : a = b := by
  cases a with
  | all => cases b with
    | all => rfl
    | columns names => exact absurd same (by simp [toJson])
  | columns names => cases b with
    | all => exact absurd same (by simp [toJson])
    | columns others =>
      simp only [toJson, Json.obj.injEq, List.cons.injEq, Prod.mk.injEq, Json.arr.injEq, true_and,
        and_true] at same
      rw [strings_inj same]

end ColumnSelection

/-- Whether a filter, if there is one, holds no infinity and no NaN. -/
def FilterFinite (filter : Option Filter) : Prop := ∀ f ∈ filter, f.IsFinite

theorem FilterFinite.toJson {filter : Option Filter} (finite : FilterFinite filter) :
    (Json.ofOption Filter.toJson filter).isFinite = true := by
  cases filter with
  | none => rfl
  | some f => exact Filter.toJson_isFinite (finite f rfl)

theorem FilterFinite.inj {filter other : Option Filter} (finite : FilterFinite filter)
    (second : FilterFinite other)
    (same : Json.ofOption Filter.toJson filter = Json.ofOption Filter.toJson other) :
    filter = other :=
  Json.ofOption_inj (fun _ _ => by simp [Filter.toJson]) (fun _ _ => by simp [Filter.toJson])
    (fun f hf g hg equal => Filter.toJson_inj (finite f hf) (second g hg) equal) same

namespace RelationRequest

theorem toJson_isFinite {r : RelationRequest} (finite : FilterFinite r.filter) :
    r.toJson.isFinite = true := by
  simp [toJson, Json.isFinite, Json.fieldsFinite, r.columns.toJson_isFinite, finite.toJson,
    Json.ofOption_str_isFinite]

theorem toJson_inj {r s : RelationRequest} (finite : FilterFinite r.filter)
    (other : FilterFinite s.filter) (same : r.toJson = s.toJson) : r = s := by
  simp only [toJson, Json.obj.injEq, List.cons.injEq, Prod.mk.injEq, Json.str.injEq, true_and,
    and_true] at same
  obtain ⟨name, kind, columns, filter, path⟩ := same
  cases r
  cases s
  rw [mk.injEq]
  exact ⟨name, RelationKind.tag_inj kind, ColumnSelection.toJson_inj columns,
    finite.inj other filter, Json.ofOption_str_inj path⟩

end RelationRequest

namespace CountRequest

theorem toJson_isFinite {c : CountRequest} (finite : FilterFinite c.filter) :
    c.toJson.isFinite = true := by
  simp [toJson, Json.isFinite, Json.fieldsFinite, finite.toJson, Json.ofOption_str_isFinite]

theorem toJson_inj {c d : CountRequest} (finite : FilterFinite c.filter)
    (other : FilterFinite d.filter) (same : c.toJson = d.toJson) : c = d := by
  simp only [toJson, Json.obj.injEq, List.cons.injEq, Prod.mk.injEq, Json.str.injEq, true_and,
    and_true] at same
  obtain ⟨relation, filter, name⟩ := same
  cases c
  cases d
  rw [mk.injEq]
  exact ⟨relation, finite.inj other filter, Json.ofOption_str_inj name⟩

end CountRequest

namespace AggregateRequest

theorem toJson_isFinite {a : AggregateRequest} (finite : FilterFinite a.filter) :
    a.toJson.isFinite = true := by
  simp [toJson, Json.isFinite, Json.fieldsFinite, finite.toJson]

theorem toJson_inj {a b : AggregateRequest} (finite : FilterFinite a.filter)
    (other : FilterFinite b.filter) (same : a.toJson = b.toJson) : a = b := by
  simp only [toJson, Json.obj.injEq, List.cons.injEq, Prod.mk.injEq, Json.str.injEq, true_and,
    and_true] at same
  obtain ⟨relation, column, function, filter⟩ := same
  cases a
  cases b
  rw [mk.injEq]
  exact ⟨relation, column, AggregateFunction.tag_inj function, finite.inj other filter⟩

end AggregateRequest

namespace Search

theorem toJson_isFinite (s : Search) : s.toJson.isFinite = true := by
  simp [toJson, Json.isFinite, Json.fieldsFinite, strings_isFinite s.columns]

theorem toJson_inj {s t : Search} (same : s.toJson = t.toJson) : s = t := by
  simp only [toJson, Json.obj.injEq, List.cons.injEq, Prod.mk.injEq, Json.str.injEq, Json.arr.injEq,
    true_and, and_true] at same
  obtain ⟨term, columns⟩ := same
  cases s
  cases t
  rw [mk.injEq]
  exact ⟨term, strings_inj columns⟩

end Search
end EagerLoad
