import EagerLoad.Filter.Tagged
import EagerLoad.Proofs.Filter.Values
import EagerLoad.Proofs.Json.Unambiguous
import EagerLoad.Proofs.Time.Instant
import EagerLoad.Proofs.Uuid

/-! # Tagged values and filters

The tagged form of a value and the written form of a filter tell everything about them, unless an infinity
or a NaN has become null. -/
namespace EagerLoad

/-- Lists are the same if they are mapped to the same and no two of their elements are. -/
theorem map_inj_on {f : α → β} {xs ys : List α}
    (inj : ∀ x ∈ xs, ∀ y ∈ ys, f x = f y → x = y) (same : xs.map f = ys.map f) : xs = ys := by
  induction xs generalizing ys with
  | nil => simpa [eq_comm] using same
  | cons x xs ih => cases ys with
    | nil => simp at same
    | cons y ys =>
      obtain ⟨first, rest⟩ := List.cons.inj same
      rw [inj x List.mem_cons_self y List.mem_cons_self first,
        ih (fun u hu v hv => inj u (.tail x hu) v (.tail y hv)) rest]

namespace DbValue

/-- Whether a value is, and holds, no infinity and no NaN. -/
def isFinite : DbValue → Bool
  | float x => x.isFinite
  | json j => j.isFinite
  | _ => true

theorem tagged_isFinite {v : DbValue} (finite : v.isFinite = true) : v.tagged.isFinite = true := by
  have tag (kind : String) {value : Json} (h : value.isFinite = true) :
      (DbValue.tag kind value).isFinite = true := by
    simp [DbValue.tag, Json.isFinite, Json.fieldsFinite, h]
  cases v with
  | null => rfl
  | float x =>
    have known : x.isFinite = true := finite
    rw [tagged, if_pos known]
    exact tag "Float64" finite
  | json j => exact tag "Json" finite
  | _ => exact tag _ rfl

theorem tagged_inj {v w : DbValue} (finite : v.isFinite = true) (other : w.isFinite = true)
    (same : v.tagged = w.tagged) : v = w := by
  cases v <;> cases w <;> simp [tagged, tag] at same
  · rfl
  · exact congrArg bool same
  · exact congrArg int32 (Int32.toInt_inj.mp same)
  · exact congrArg int64 (Int64.toInt_inj.mp same)
  · rename_i x y
    have left : x.isFinite = true := finite
    have right : y.isFinite = true := other
    rw [if_pos left, if_pos right] at same
    exact congrArg float (Json.float.inj same)
  · exact congrArg text same
  · exact congrArg uuid (Uuid.text_inj same)
  · exact congrArg instant (Instant.markedText_inj same)
  · exact congrArg json same

theorem taggedList_isFinite {vs : List DbValue} (finite : ∀ v ∈ vs, v.isFinite = true) :
    (taggedList vs).isFinite = true := by
  rw [taggedList, Json.isFinite, Json.itemsFinite_iff]
  intro item found
  obtain ⟨v, known, rfl⟩ := List.mem_map.mp found
  exact tagged_isFinite (finite v known)

theorem taggedList_inj {vs ws : List DbValue} (finite : ∀ v ∈ vs, v.isFinite = true)
    (other : ∀ w ∈ ws, w.isFinite = true) (same : taggedList vs = taggedList ws) : vs = ws :=
  map_inj_on (fun v hv w hw => tagged_inj (finite v hv) (other w hw)) (Json.arr.inj same)

end DbValue

theorem Comparison.tag_inj {a b : Comparison} (same : a.tag = b.tag) : a = b := by
  cases a <;> cases b <;> first | rfl | simp [tag] at same

theorem Connective.tag_inj {a b : Connective} (same : a.tag = b.tag) : a = b := by
  cases a <;> cases b <;> first | rfl | simp [tag] at same

theorem Direction.tag_inj {a b : Direction} (same : a.tag = b.tag) : a = b := by
  cases a <;> cases b <;> first | rfl | simp [tag] at same

namespace OrderTerm

theorem toJson_isFinite (t : OrderTerm) : t.toJson.isFinite = true := rfl

theorem toJson_inj {t u : OrderTerm} (same : t.toJson = u.toJson) : t = u := by
  simp only [toJson, Json.obj.injEq, List.cons.injEq, Prod.mk.injEq, Json.str.injEq, true_and,
    and_true] at same
  obtain ⟨column, direction⟩ := same
  cases t
  cases u
  rw [mk.injEq]
  exact ⟨column, Direction.tag_inj direction⟩

end OrderTerm

/-- A comparison that binds nothing compares with null. -/
theorem Condition.compare_isFinite {column : String} {operator : Comparison} {value : DbValue}
    (finite : ∀ v ∈ (Condition.compare column operator value).values, v.isFinite = true) :
    value.isFinite = true := by
  by_cases null : value = .null
  · rw [null]
    rfl
  · have bound : (Condition.compare column operator value).values = [value] := by
      cases value with
      | null => exact absurd rfl null
      | _ => cases operator <;> rfl
    rw [bound] at finite
    exact finite value List.mem_cons_self

mutual

theorem Condition.toJson_isFinite (c : Condition) (finite : ∀ v ∈ c.values, v.isFinite = true) :
    c.toJson.isFinite = true := by
  cases c with
  | compare column operator value =>
    have known := DbValue.tagged_isFinite (Condition.compare_isFinite finite)
    simp [Condition.toJson, Json.isFinite, Json.fieldsFinite, known]
  | columns left operator right => rfl
  | among column values negated =>
    have known : (DbValue.taggedList values).isFinite = true := DbValue.taggedList_isFinite finite
    simp [Condition.toJson, Json.isFinite, Json.fieldsFinite, known]
  | null column negated => rfl
  | between column low high =>
    have below := DbValue.tagged_isFinite (finite low List.mem_cons_self)
    have above := DbValue.tagged_isFinite (finite high (.tail low List.mem_cons_self))
    simp [Condition.toJson, Json.isFinite, Json.fieldsFinite, below, above]
  | group clauses =>
    have known := clausesToJson_isFinite clauses finite
    simp [Condition.toJson, Json.isFinite, Json.fieldsFinite, known]
  | raw sql bindings =>
    have known : (DbValue.taggedList bindings).isFinite = true :=
      DbValue.taggedList_isFinite finite
    simp [Condition.toJson, Json.isFinite, Json.fieldsFinite, known]

theorem clausesToJson_isFinite (clauses : List Clause)
    (finite : ∀ v ∈ clausesValues clauses, v.isFinite = true) :
    Json.itemsFinite (clausesToJson clauses) = true := by
  cases clauses with
  | nil => rfl
  | cons clause rest =>
    obtain ⟨connective, condition⟩ := clause
    have here := condition.toJson_isFinite fun v found => finite v (List.mem_append_left _ found)
    have later := clausesToJson_isFinite rest fun v found => finite v (List.mem_append_right _ found)
    simp [clausesToJson, Json.itemsFinite, Json.isFinite, Json.fieldsFinite, here, later]

end

mutual

theorem Condition.toJson_inj (c : Condition) : ∀ {d : Condition},
    (∀ v ∈ c.values, v.isFinite = true) → (∀ v ∈ d.values, v.isFinite = true) →
    c.toJson = d.toJson → c = d := by
  intro d finite other same
  cases c with
  | compare column operator value => cases d with
    | compare column' operator' value' =>
      simp only [Condition.toJson, Json.obj.injEq, List.cons.injEq, Prod.mk.injEq, Json.str.injEq,
        true_and, and_true] at same
      obtain ⟨rfl, operators, values⟩ := same
      rw [Comparison.tag_inj operators, DbValue.tagged_inj (Condition.compare_isFinite finite)
        (Condition.compare_isFinite other) values]
    | _ => simp [Condition.toJson] at same
  | columns left operator right => cases d with
    | columns left' operator' right' =>
      simp only [Condition.toJson, Json.obj.injEq, List.cons.injEq, Prod.mk.injEq, Json.str.injEq,
        true_and, and_true] at same
      obtain ⟨rfl, operators, rfl⟩ := same
      rw [Comparison.tag_inj operators]
    | _ => simp [Condition.toJson] at same
  | among column values negated => cases d with
    | among column' values' negated' =>
      simp only [Condition.toJson, Json.obj.injEq, List.cons.injEq, Prod.mk.injEq, Json.str.injEq,
        Json.bool.injEq, true_and, and_true] at same
      obtain ⟨rfl, lists, rfl⟩ := same
      have equal : values = values' := DbValue.taggedList_inj finite other lists
      rw [equal]
    | _ => simp [Condition.toJson] at same
  | null column negated => cases d with
    | null column' negated' => simpa [Condition.toJson] using same
    | _ => simp [Condition.toJson] at same
  | between column low high => cases d with
    | between column' low' high' =>
      simp only [Condition.toJson, Json.obj.injEq, List.cons.injEq, Prod.mk.injEq, Json.str.injEq,
        true_and, and_true] at same
      obtain ⟨rfl, lows, highs⟩ := same
      rw [DbValue.tagged_inj (finite low List.mem_cons_self) (other low' List.mem_cons_self) lows,
        DbValue.tagged_inj (finite high (.tail low List.mem_cons_self))
          (other high' (.tail low' List.mem_cons_self)) highs]
    | _ => simp [Condition.toJson] at same
  | group clauses => cases d with
    | group others =>
      simp only [Condition.toJson, Json.obj.injEq, List.cons.injEq, Prod.mk.injEq, Json.arr.injEq,
        true_and, and_true] at same
      rw [clausesToJson_inj clauses finite other same]
    | _ => simp [Condition.toJson] at same
  | raw sql bindings => cases d with
    | raw sql' bindings' =>
      simp only [Condition.toJson, Json.obj.injEq, List.cons.injEq, Prod.mk.injEq, Json.str.injEq,
        true_and, and_true] at same
      obtain ⟨rfl, lists⟩ := same
      have equal : bindings = bindings' := DbValue.taggedList_inj finite other lists
      rw [equal]
    | _ => simp [Condition.toJson] at same

theorem clausesToJson_inj (clauses : List Clause) : ∀ {others : List Clause},
    (∀ v ∈ clausesValues clauses, v.isFinite = true) →
    (∀ v ∈ clausesValues others, v.isFinite = true) →
    clausesToJson clauses = clausesToJson others → clauses = others := by
  intro others finite other same
  cases clauses with
  | nil => cases others with
    | nil => rfl
    | cons clause rest => simp [clausesToJson] at same
  | cons clause rest => cases others with
    | nil => simp [clausesToJson] at same
    | cons clause' rest' =>
      obtain ⟨connective, condition⟩ := clause
      obtain ⟨connective', condition'⟩ := clause'
      simp only [clausesToJson, List.cons.injEq, Json.obj.injEq, Prod.mk.injEq, Json.str.injEq,
        true_and, and_true] at same
      obtain ⟨⟨connectives, conditions⟩, later⟩ := same
      rw [Connective.tag_inj connectives,
        condition.toJson_inj (fun v found => finite v (List.mem_append_left _ found))
          (fun v found => other v (List.mem_append_left _ found)) conditions,
        clausesToJson_inj rest (fun v found => finite v (List.mem_append_right _ found))
          (fun v found => other v (List.mem_append_right _ found)) later]

end

namespace Json

theorem ofOption_inj {encode : α → Json} {x y : Option α}
    (some : ∀ a ∈ x, encode a ≠ .null) (other : ∀ a ∈ y, encode a ≠ .null)
    (inj : ∀ a ∈ x, ∀ b ∈ y, encode a = encode b → a = b)
    (same : ofOption encode x = ofOption encode y) : x = y := by
  cases x with
  | none => cases y with
    | none => rfl
    | some b => exact absurd same.symm (other b rfl)
  | some a => cases y with
    | none => exact absurd same (some a rfl)
    | some b => rw [inj a rfl b rfl same]

theorem ofOption_nat_inj {m n : Option Nat} (same : ofOption ofNat m = ofOption ofNat n) : m = n :=
  ofOption_inj (fun _ _ => by simp) (fun _ _ => by simp)
    (fun _ _ _ _ equal => Int.ofNat.inj (int.inj equal)) same

theorem ofOption_str_inj {s t : Option String} (same : ofOption str s = ofOption str t) : s = t :=
  ofOption_inj (fun _ _ => by simp) (fun _ _ => by simp) (fun _ _ _ _ equal => str.inj equal) same

end Json

namespace Filter

def IsFinite (f : Filter) : Prop := ∀ v ∈ f.values, v.isFinite = true

theorem toJson_isFinite {f : Filter} (finite : f.IsFinite) : f.toJson.isFinite = true := by
  have clauses := clausesToJson_isFinite f.clauses finite
  have order : Json.itemsFinite (f.order.map OrderTerm.toJson) = true := by
    rw [Json.itemsFinite_iff]
    intro item found
    obtain ⟨t, -, rfl⟩ := List.mem_map.mp found
    exact t.toJson_isFinite
  have limit : (Json.ofOption Json.ofNat f.limit).isFinite = true := by
    cases f.limit <;> rfl
  simp [toJson, Json.isFinite, Json.fieldsFinite, clauses, order, limit]

theorem toJson_inj {f g : Filter} (finite : f.IsFinite) (other : g.IsFinite)
    (same : f.toJson = g.toJson) : f = g := by
  simp only [toJson, Json.obj.injEq, List.cons.injEq, Prod.mk.injEq, Json.arr.injEq, true_and,
    and_true] at same
  obtain ⟨clauses, order, limit⟩ := same
  cases f
  cases g
  rw [mk.injEq]
  exact ⟨clausesToJson_inj _ finite other clauses,
    map_inj_on (fun _ _ _ _ equal => OrderTerm.toJson_inj equal) order, Json.ofOption_nat_inj limit⟩

end Filter
end EagerLoad
