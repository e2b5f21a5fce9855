import EagerLoad.Proofs.Row.Merge

/-! # Merging several batches

Batches are merged one after the other, each on its own columns. No merge changes the key of a row, so each
column is as if the batches without it had not been merged. -/
namespace EagerLoad

namespace Row

/-- Whether two rows have the same key and hold the same in a column. -/
def Alike (key x : String) (a b : Row) : Prop := a.key? key = b.key? key ∧ a.get? x = b.get? x

variable {key x : String}

theorem forall₂_alike_refl (rows : List Row) : List.Forall₂ (Alike key x) rows rows :=
  List.forall₂_same.mpr fun _ _ => ⟨rfl, rfl⟩

theorem forall₂_alike_trans {rows others more : List Row} (first : List.Forall₂ (Alike key x) rows others)
    (second : List.Forall₂ (Alike key x) others more) : List.Forall₂ (Alike key x) rows more :=
  forall₂_trans (fun _ _ _ here there => ⟨here.1.trans there.1, here.2.trans there.2⟩) first second

/-- A row keeps its key though its partner may hold another value of the same key. -/
theorem key?_take_of_partner (columns : List String) {row incoming : Row} {text : String}
    (partner : incoming.key? key = some text) (keyed : row.key? key = some text) :
    (row.take columns incoming).key? key = some text := by
  rw [key?, get?_take]
  split
  · rw [key?] at partner
    cases found : incoming.get? key with
    | none => simp [found] at partner
    | some value => rwa [found] at partner
  · exact keyed

end Row

namespace Rows

variable {key x : String} {columns : List String}

theorem mergeRow_alike {incoming : Row} {text : String} (partner : incoming.key? key = some text)
    {rows others : List Row} (alike : List.Forall₂ (Row.Alike key x) rows others) :
    List.Forall₂ (Row.Alike key x) (mergeRow key columns incoming text rows)
      (mergeRow key columns incoming text others) := by
  induction alike with
  | nil => exact .nil
  | @cons row other _ _ here rest ih =>
    rw [mergeRow, mergeRow, here.1]
    split
    · rename_i keyed
      have taken : (row.take columns incoming).Alike key x (other.take columns incoming) := by
        refine ⟨?_, ?_⟩
        · rw [Row.key?_take_of_partner columns partner keyed,
            Row.key?_take_of_partner columns partner (here.1.trans keyed)]
        · rw [Row.get?_take, Row.get?_take, here.2]
      exact .cons taken rest
    · exact .cons here ih

theorem mergeRow_elsewhere (elsewhere : x ∉ columns) {incoming : Row} {text : String}
    (partner : incoming.key? key = some text) (rows : List Row) :
    List.Forall₂ (Row.Alike key x) rows (mergeRow key columns incoming text rows) := by
  induction rows with
  | nil => exact .nil
  | cons row rest ih =>
    rw [mergeRow]
    split
    · rename_i keyed
      have taken : row.Alike key x (row.take columns incoming) := by
        refine ⟨?_, ?_⟩
        · rw [Row.key?_take_of_partner columns partner keyed, keyed]
        · rw [Row.get?_take, if_neg elsewhere]
      exact .cons taken (Row.forall₂_alike_refl rest)
    · exact .cons ⟨rfl, rfl⟩ ih

/-- What a batch makes of a column depends on the keys of the rows and on that column. -/
theorem merge_alike (batch : List Row) {rows others : List Row}
    (alike : List.Forall₂ (Row.Alike key x) rows others) :
    List.Forall₂ (Row.Alike key x) (merge rows batch key columns) (merge others batch key columns) := by
  induction batch generalizing rows others with
  | nil => exact alike
  | cons incoming rest ih =>
    rw [merge, merge, List.foldl_cons, List.foldl_cons, ← merge, ← merge]
    cases partner : incoming.key? key with
    | none => exact ih alike
    | some text => exact ih (mergeRow_alike partner alike)

theorem merge_elsewhere (elsewhere : x ∉ columns) (batch rows : List Row) :
    List.Forall₂ (Row.Alike key x) rows (merge rows batch key columns) := by
  induction batch generalizing rows with
  | nil => exact Row.forall₂_alike_refl rows
  | cons incoming rest ih =>
    rw [merge, List.foldl_cons, ← merge]
    cases partner : incoming.key? key with
    | none => exact ih rows
    | some text =>
      exact Row.forall₂_alike_trans (mergeRow_elsewhere elsewhere partner rows) (ih _)

/-- Merges batches in their order, each on the columns that it brings. -/
def mergeAll (key : String) (batches : List (List String × List Row)) (rows : List Row) : List Row :=
  batches.foldl (fun rows batch => merge rows batch.2 key batch.1) rows

/-- The columns that batches bring. -/
def brought (batches : List (List String × List Row)) : List String := batches.flatMap (·.1)

theorem mergeAll_sameBut (batches : List (List String × List Row)) (rows : List Row) :
    List.Forall₂ (Row.SameBut (brought batches)) rows (mergeAll key batches rows) := by
  induction batches generalizing rows with
  | nil => exact Row.forall₂_sameBut_refl rows
  | cons batch rest ih =>
    have here : List.Forall₂ (Row.SameBut (brought (batch :: rest))) rows
        (merge rows batch.2 key batch.1) :=
      (merge_sameBut rows batch.2).imp fun _ _ same => same.mono (List.subset_append_left _ _)
    have later : List.Forall₂ (Row.SameBut (brought (batch :: rest))) (merge rows batch.2 key batch.1)
        (mergeAll key rest (merge rows batch.2 key batch.1)) :=
      (ih _).imp fun _ _ same => same.mono (List.subset_append_right _ _)
    exact Row.forall₂_sameBut_trans here later

theorem mergeAll_elsewhere (batches : List (List String × List Row)) (elsewhere : x ∉ brought batches)
    (rows : List Row) : List.Forall₂ (Row.Alike key x) rows (mergeAll key batches rows) := by
  induction batches generalizing rows with
  | nil => exact Row.forall₂_alike_refl rows
  | cons batch rest ih =>
    rw [brought, List.flatMap_cons, List.mem_append, not_or] at elsewhere
    exact Row.forall₂_alike_trans (merge_elsewhere elsewhere.1 batch.2 rows)
      (ih elsewhere.2 _)

/-- A column that one batch brings is as if that batch had been merged alone. -/
theorem mergeAll_alone {before after : List (List String × List Row)} {batch : List Row}
    (elsewhere : x ∉ brought (before ++ after)) (rows : List Row) :
    List.Forall₂ (Row.Alike key x) (merge rows batch key columns)
      (mergeAll key (before ++ (columns, batch) :: after) rows) := by
  rw [brought, List.flatMap_append, List.mem_append, not_or] at elsewhere
  have parts : mergeAll key (before ++ (columns, batch) :: after) rows =
      mergeAll key after (merge (mergeAll key before rows) batch key columns) := by
    rw [mergeAll, List.foldl_append, List.foldl_cons]
    rfl
  rw [parts]
  exact Row.forall₂_alike_trans
    (merge_alike batch (mergeAll_elsewhere before elsewhere.1 rows)) (mergeAll_elsewhere after elsewhere.2 _)

end Rows
end EagerLoad
