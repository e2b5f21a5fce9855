import EagerLoad.Proofs.Run.Database

/-! # Attaching what belongs to base rows

A row that carries values shows its base row and what was attached to it since. The groups that the
answers for owner keys are gathered in give every base row the value that the database holds for
it. -/
namespace EagerLoad

theorem Json.isNull_eq_false_of_keyText? {value : Json} {text : String}
    (h : value.keyText? = some text) : value.isNull = false := by
  cases value <;> first | rfl | exact absurd h (by simp [keyText?])

namespace Row

/-- Whether a row shows the columns of a base row, and the values attached since, the latest first. -/
def Carries (columns : List String) (added : List (String × (Row → Json))) (row shown : Row) : Prop :=
  ∀ x, shown.get? x = match added.lookup x with
    | some value => some (value row)
    | none => if x ∈ columns then row.get? x else none

variable {columns : List String} {added : List (String × (Row → Json))} {row shown : Row}

theorem Carries.set (carries : Carries columns added row shown) (label : String)
    (value : Row → Json) : Carries columns ((label, value) :: added) row
      (shown.set label (value row)) := by
  intro x
  rw [get?_set, lookup_entry]
  split
  · rfl
  · exact carries x

theorem Carries.get?_key (carries : Carries columns added row shown) {key : String}
    (selected : key ∈ columns) (apart : added.lookup key = none) :
    shown.get? key = row.get? key := by
  rw [carries key, apart]
  exact if_pos selected

end Row

theorem Fallback.attach_carries {columns : List String} {added : List (String × (Row → Json))}
    {rows shown : List Row} (carries : List.Forall₂ (Row.Carries columns added) rows shown)
    {key label : String} (selected : key ∈ columns) (apart : added.lookup key = none)
    {groups : List (String × α)} {absent : α} {value : α → Json} {held : Row → Json}
    (same : ∀ row ∈ rows,
      value (((row.key? key).bind fun k => groups.lookup k).getD absent) = held row) :
    List.Forall₂ (Row.Carries columns ((label, held) :: added)) rows
      (attach key label groups absent value shown) := by
  rw [attach, List.forall₂_map_right_iff]
  have known : ∀ row ∈ rows, row ∈ rows := fun _ found => found
  refine ((List.forall₂_and_left _ _).mpr ⟨known, carries⟩).imp fun row shown both => ?_
  obtain ⟨found, each⟩ := both
  have text : shown.key? key = row.key? key := by
    rw [Row.key?, Row.key?, each.get?_key selected apart]
  rw [text, same row found]
  exact each.set label held

namespace Database

variable {db : Database} {label key : String} {row : Row} {text : String}

theorem key?_of_keys_isEmpty (empty : (db.keys key).isEmpty = true) (known : row ∈ db.rows) :
    row.key? key = none := by
  cases keyed : row.key? key with
  | none => rfl
  | some text =>
    obtain ⟨-, -, value, -, -, bound⟩ := Rows.exists_mem_collectKeys known keyed
    rw [keys, List.isEmpty_iff] at empty
    exact absurd bound (by simp [empty])

/-- The pairs of a base row's key are among those that are bound. -/
theorem bound_of_key (compares : db.ComparesText label key) (known : row ∈ db.rows)
    (keyed : row.key? key = some text) {pair : Json × Row} (listed : pair ∈ db.pairs label)
    (owner : pair.1.keyText? = some text) : pair ∈ db.bound label key := by
  obtain ⟨other, found, value, held, shown, bound⟩ := Rows.exists_mem_collectKeys known keyed
  have given := Json.isNull_eq_false_of_keyText? shown
  have equal := (compares other found value held given pair listed).mpr (owner.trans shown.symm)
  rw [Database.bound, List.mem_filter, List.any_eq_true]
  exact ⟨listed, _, bound, equal⟩

theorem filter_bound (compares : db.ComparesText label key) (known : row ∈ db.rows)
    (keyed : row.key? key = some text) :
    (db.bound label key).filter (fun pair => pair.1.keyText? = some text) =
      (db.pairs label).filter fun pair => pair.1.keyText? = some text := by
  rw [bound, List.filter_filter]
  apply List.filter_congr
  intro pair listed
  by_cases owner : pair.1.keyText? = some text
  · have found := bound_of_key compares known keyed listed owner
    rw [bound, List.mem_filter] at found
    simp [owner, found.2]
  · simp [owner]

/-- The group of a base row's key holds the objects of the row. -/
theorem lookup_keyedRows {p : Plan} {c : Compiler} {r : RelationRequest}
    (compares : db.ComparesText r.label (p.keyOf r.name))
    (plain : Keyed.ownerAlias ∉ p.relatedColumns c r) (known : row ∈ db.rows)
    (keyed : row.key? (p.keyOf r.name) = some text) :
    ((Fallback.groupRows (db.keyedRows p c r)).lookup text).getD [] = db.objects p c r row := by
  have owner (pair : Json × Row) : Row.key?
      ((Keyed.ownerAlias, pair.1) :: pair.2.select (p.relatedColumns c r)) Keyed.ownerAlias =
        pair.1.keyText? := by
    rw [Row.key?, Row.get?, lookup_entry, if_pos rfl]
    rfl
  have object (pair : Json × Row) : Row.remove
      ((Keyed.ownerAlias, pair.1) :: pair.2.select (p.relatedColumns c r)) Keyed.ownerAlias =
        pair.2.select (p.relatedColumns c r) := by
    rw [Row.remove, List.filter_cons_of_neg (by simp), List.filter_eq_self]
    intro column found
    obtain ⟨name, listed, rfl⟩ := List.mem_map.mp found
    rw [bne_iff_ne]
    rintro rfl
    exact plain listed
  rw [Fallback.lookup_groupRows, keyedRows, List.filter_map, List.map_map, objects, keyed, owned,
    List.map_map, ← filter_bound compares known keyed]
  simp only [Function.comp_def, owner, object]

/-- The value of a base row's key is the one of its related rows. -/
theorem Groups.lookup {value : List Row → Json} {answer : List Row}
    (groups : db.Groups label key value answer) (compares : db.ComparesText label key)
    (known : row ∈ db.rows) (keyed : row.key? key = some text) :
    ((Fallback.groupValues answer).lookup text).getD (value []) =
      value (db.owned label (some text)) := by
  rw [Fallback.lookup_groupValues_of_agree fun row found => groups.1 row found text]
  by_cases found : (answer.any fun row => row.key? Keyed.ownerAlias = some text) = true
  · rw [if_pos found]
    rfl
  · have none : (db.pairs label).filter (fun pair => pair.1.keyText? = some text) = [] := by
      rw [List.filter_eq_nil_iff]
      intro pair listed owner
      have owner : pair.1.keyText? = some text := by simpa using owner
      obtain ⟨row, answered, same⟩ := groups.2 pair (bound_of_key compares known keyed listed owner)
      apply found
      rw [List.any_eq_true]
      exact ⟨row, answered, by simpa using same.trans owner⟩
    rw [if_neg found, owned, none]
    rfl

end Database
end EagerLoad
