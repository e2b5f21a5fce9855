import Mathlib.Data.List.Forall2
import EagerLoad.Proofs.Row.Maps

/-! # Merging rows by key

Where no two rows have the same key, merging a batch gives every row the columns of the incoming rows
with its key. The key itself stays. -/
namespace EagerLoad

theorem forall₂_trans {R : α → α → Prop} (trans : ∀ a b c, R a b → R b c → R a c) {xs ys zs : List α}
    (first : List.Forall₂ R xs ys) (second : List.Forall₂ R ys zs) : List.Forall₂ R xs zs := by
  induction first generalizing zs with
  | nil => exact second
  | cons here _ ih =>
    cases second with
    | cons there rest => exact .cons (trans _ _ _ here there) (ih rest)

namespace Row

@[simp] theorem key?_take {key : String} {columns : List String} (h : key ∉ columns)
    (row incoming : Row) : (row.take columns incoming).key? key = row.key? key := by
  rw [key?, get?_take, if_neg h, key?]

theorem forall₂_sameBut_refl {columns : List String} (rows : List Row) :
    List.Forall₂ (SameBut columns) rows rows :=
  List.forall₂_same.mpr fun row _ => .refl row

theorem forall₂_sameBut_trans {columns : List String} {rows others more : List Row}
    (first : List.Forall₂ (SameBut columns) rows others)
    (second : List.Forall₂ (SameBut columns) others more) :
    List.Forall₂ (SameBut columns) rows more :=
  forall₂_trans (fun _ _ _ here there => here.trans there) first second

end Row

namespace Rows

/-- A row with the listed columns of the incoming rows that have its key. -/
def receive (key : String) (columns : List String) (batch : List Row) (row : Row) : Row :=
  batch.foldl (fun row incoming =>
    if incoming.key? key = row.key? key then row.take columns incoming else row) row

variable {key : String} {columns : List String}

theorem get?_receive_of_notMem (batch : List Row) (row : Row) {x : String} (h : x ∉ columns) :
    (receive key columns batch row).get? x = row.get? x := by
  induction batch generalizing row with
  | nil => rfl
  | cons incoming rest ih =>
    rw [receive, List.foldl_cons, ← receive, ih]
    split
    · rw [Row.get?_take, if_neg h]
    · rfl

/-- A column holds what all incoming rows of a key say, if there is one or it held that before. -/
private theorem get?_receive_of_agree (keep : key ∉ columns) (batch : List Row) (row : Row)
    {x : String} (h : x ∈ columns) (value : Json)
    (agree : ∀ incoming ∈ batch, incoming.key? key = row.key? key → incoming.get? x = some value)
    (known : row.get? x = some value ∨ ∃ incoming ∈ batch, incoming.key? key = row.key? key) :
    (receive key columns batch row).get? x = some value := by
  induction batch generalizing row with
  | nil =>
    obtain known | ⟨incoming, found, -⟩ := known
    · exact known
    · exact absurd found (by simp)
  | cons incoming rest ih =>
    rw [receive, List.foldl_cons, ← receive]
    have later : ∀ other ∈ rest, other.key? key = row.key? key → other.get? x = some value :=
      fun other found => agree other (by simp [found])
    by_cases same : incoming.key? key = row.key? key
    · have here := agree incoming (by simp) same
      rw [if_pos same]
      refine ih _ ?_ (.inl ?_)
      · rw [Row.key?_take keep]
        exact later
      · rw [Row.get?_take, if_pos h, here]
        rfl
    · rw [if_neg same]
      refine ih _ later ?_
      obtain known | ⟨other, found, partner⟩ := known
      · exact .inl known
      · obtain rfl | found := List.mem_cons.mp found
        · exact absurd partner same
        · exact .inr ⟨other, found, partner⟩

/-- A column holds what all incoming rows of a key say, if there is one. -/
theorem get?_receive (keep : key ∉ columns) {batch : List Row} {row : Row} {x : String}
    (h : x ∈ columns) (value : Json)
    (agree : ∀ incoming ∈ batch, incoming.key? key = row.key? key → incoming.get? x = some value)
    (partner : ∃ incoming ∈ batch, incoming.key? key = row.key? key) :
    (receive key columns batch row).get? x = some value :=
  get?_receive_of_agree keep batch row h value agree (.inr partner)

private theorem mergeRow_eq_map (rows : List Row) (incoming : Row) (text : String)
    (distinct : (rows.map (·.key? key)).Nodup) :
    mergeRow key columns incoming text rows =
      rows.map fun row => if row.key? key = some text then row.take columns incoming else row := by
  induction rows with
  | nil => rfl
  | cons row rest ih =>
    rw [List.map_cons, List.nodup_cons] at distinct
    rw [mergeRow, List.map_cons]
    by_cases same : row.key? key = some text
    · rw [if_pos same, if_pos same]
      have others : ∀ other ∈ rest,
          (if other.key? key = some text then other.take columns incoming else other) = other := by
        intro other found
        refine if_neg fun shared => distinct.1 ?_
        exact List.mem_map.mpr ⟨other, found, by rw [shared, same]⟩
      rw [List.map_congr_left others, List.map_id']
    · rw [if_neg same, if_neg same, ih distinct.2]

/-- Merging a batch into rows with distinct keys lets every row receive it. -/
theorem merge_eq_map (keep : key ∉ columns) (rows batch : List Row)
    (keyed : ∀ row ∈ rows, (row.key? key).isSome) (distinct : (rows.map (·.key? key)).Nodup) :
    merge rows batch key columns = rows.map (receive key columns batch) := by
  induction batch generalizing rows with
  | nil => exact (List.map_id' rows).symm
  | cons incoming rest ih =>
    let step (row : Row) : Row :=
      if incoming.key? key = row.key? key then row.take columns incoming else row
    have key_step (row : Row) : (step row).key? key = row.key? key := by
      simp only [step]
      split
      · exact Row.key?_take keep row incoming
      · rfl
    have stepped : merge rows (incoming :: rest) key columns =
        merge (rows.map step) rest key columns := by
      rw [merge, List.foldl_cons, ← merge]
      congr 1
      cases found : incoming.key? key with
      | none =>
        have unchanged : ∀ row ∈ rows, step row = row := by
          intro row known
          refine if_neg fun same => ?_
          have some := keyed row known
          rw [← same, found] at some
          exact Bool.false_ne_true some
        rw [List.map_congr_left unchanged, List.map_id']
      | some text =>
        dsimp only
        rw [mergeRow_eq_map rows incoming text distinct]
        refine List.map_congr_left fun row _ => ?_
        simp only [step, found, eq_comm]
    have keys : (rows.map step).map (·.key? key) = rows.map (·.key? key) := by
      rw [List.map_map]
      exact List.map_congr_left fun row _ => key_step row
    have keyed' : ∀ row ∈ rows.map step, (row.key? key).isSome := by
      intro row found
      obtain ⟨before, known, rfl⟩ := List.mem_map.mp found
      rw [key_step]
      exact keyed before known
    rw [stepped, ih (rows.map step) keyed' (by rw [keys]; exact distinct), List.map_map]
    rfl

private theorem mergeRow_sameBut (incoming : Row) (text : String) (rows : List Row) :
    List.Forall₂ (Row.SameBut columns) rows (mergeRow key columns incoming text rows) := by
  induction rows with
  | nil => exact .nil
  | cons row rest ih =>
    rw [mergeRow]
    split
    · exact .cons (Row.take_sameBut columns row incoming) (Row.forall₂_sameBut_refl rest)
    · exact .cons (.refl row) ih

/-- Merging a batch leaves the rows in their places, and changes only the columns that it moves. -/
theorem merge_sameBut (rows batch : List Row) :
    List.Forall₂ (Row.SameBut columns) rows (merge rows batch key columns) := by
  induction batch generalizing rows with
  | nil => exact Row.forall₂_sameBut_refl rows
  | cons incoming rest ih =>
    rw [merge, List.foldl_cons, ← merge]
    cases incoming.key? key with
    | none => exact ih rows
    | some text => exact Row.forall₂_sameBut_trans (mergeRow_sameBut incoming text rows) (ih _)

/-- The keys to be bound depend on the key column only. -/
theorem collectKeys_congr {rows others : List Row}
    (h : List.Forall₂ (fun a b => a.get? key = b.get? key) rows others) :
    collectKeys rows key = collectKeys others key := by
  have all (seen : List String) : collectFrom key seen rows = collectFrom key seen others := by
    induction h generalizing seen with
    | nil => rfl
    | @cons a b _ _ same _ ih =>
      have text : a.key? key = b.key? key := by rw [Row.key?, Row.key?, same]
      rw [collectFrom, collectFrom, text, same]
      cases b.key? key with
      | none => exact ih seen
      | some text => simp only [ih]
  exact all []

theorem collectKeys_ne_nil {row : Row} {rest : List Row} (h : (row.key? key).isSome) :
    (collectKeys (row :: rest) key).isEmpty = false := by
  rw [collectKeys, collectFrom]
  cases text : row.key? key with
  | none => simp [text] at h
  | some text => rfl

end Rows
end EagerLoad
