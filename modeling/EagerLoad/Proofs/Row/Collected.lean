import EagerLoad.Proofs.Json.Unambiguous
import EagerLoad.Proofs.Plan.Split
import EagerLoad.Row.Merge

/-! # Keys that are collected

One value is bound for every key text among the rows, taken from the first row that has it. A key is
compared by its text, and the value that is bound has the same text unless the key is a number that no
bound value holds. -/
namespace EagerLoad

/-- A number beyond the values that can be bound: a whole number of more than 64 bits with its sign, or a
floating point number that has no text of its own. -/
def Json.Outgrows : Json → Prop
  | .int i => ¬(DbValue.minInt64 ≤ i ∧ i ≤ DbValue.maxInt64)
  | .float x => x.isFinite = false
  | _ => False

theorem DbValue.int64_toJson {i : Int} (held : minInt64 ≤ i ∧ i ≤ maxInt64) :
    (int64 (Int64.ofInt i)).toJson = .int i := by
  simp only [minInt64, maxInt64, Bounds.signed64] at held
  rw [toJson, Int64.toInt_ofInt_of_le (by omega) (by omega)]

/-- The value bound for a key has the text of the key, unless the key outgrows it. -/
theorem DbValue.keyText?_ofJson {value : Json} {text : String} (named : value.keyText? = some text) :
    (ofJson value).toJson.keyText? = some text ↔ ¬value.Outgrows := by
  cases value with
  | null => cases named
  | bool b => simpa [ofJson, toJson, Json.Outgrows] using named
  | str s => simpa [ofJson, toJson, Json.Outgrows] using named
  | arr items => simpa [ofJson, toJson, Json.Outgrows] using named
  | obj fields => simpa [ofJson, toJson, Json.Outgrows] using named
  | float x =>
    cases finite : x.isFinite with
    | true => simpa [ofJson, toJson, Json.Outgrows, finite] using named
    | false => simp [ofJson, toJson, Json.Outgrows, finite, Json.keyText?]
  | int i =>
    by_cases held : minInt64 ≤ i ∧ i ≤ maxInt64
    · rw [ofJson, ofInt, if_pos held, int64_toJson held]
      exact iff_of_true named (not_not_intro held)
    · refine iff_of_false (fun same => ?_) (not_not_intro held)
      rw [ofJson, ofInt, if_neg held, toJson] at same
      -- A floating point number shows a point or an exponent, a whole number neither.
      cases finite : (Binary64.ofInt i).isFinite with
      | true =>
        rw [finite, if_pos rfl] at same
        have texts : (Json.float (Binary64.ofInt i)).text = (Json.int i).text :=
          Option.some.inj (same.trans named.symm)
        have whole : (Json.float (Binary64.ofInt i)).isFinite = true := finite
        exact nomatch Json.number_inj whole rfl rfl rfl texts
      | false =>
        rw [finite, if_neg Bool.false_ne_true] at same
        cases same

namespace Rows

variable {column : String}

/-- The texts that were not seen, in order of their first occurrence. -/
def unseen : List String → List String → List String
  | _, [] => []
  | seen, text :: rest =>
    if seen.contains text then unseen seen rest else text :: unseen (text :: seen) rest

theorem unseen_congr {seen other : List String} (same : ∀ text, text ∈ seen ↔ text ∈ other)
    (texts : List String) : unseen seen texts = unseen other texts := by
  induction texts generalizing seen other with
  | nil => rfl
  | cons text rest ih =>
    have listed (t : String) : t ∈ text :: seen ↔ t ∈ text :: other := by
      rw [List.mem_cons, List.mem_cons, same]
    have known : seen.contains text = other.contains text := by
      rw [Bool.eq_iff_iff, List.contains_iff_mem, List.contains_iff_mem, same]
    rw [unseen, unseen, known, ih same, ih listed]

theorem foldl_addNew (seen texts : List String) :
    texts.foldl addNew seen = seen ++ unseen seen texts := by
  induction texts generalizing seen with
  | nil => simp [unseen]
  | cons text rest ih =>
    rw [List.foldl_cons, addNew, unseen]
    split
    · exact ih seen
    · have same (t : String) : t ∈ seen ++ [text] ↔ t ∈ text :: seen := by simp [or_comm]
      rw [ih, unseen_congr same, List.append_assoc, List.singleton_append]

theorem distinct_eq_unseen (texts : List String) : distinct texts = unseen [] texts :=
  foldl_addNew [] texts

/-- The value that is bound for a key text: that of the first row which has it. It reads as the same key
unless the key outgrows it. -/
def Stands (rows : List Row) (column : String) (bound : DbValue) (text : String) : Prop :=
  ∃ row value, rows.find? (fun row => row.key? column == some text) = some row ∧
    row.get? column = some value ∧ bound = .ofJson value ∧
    (bound.toJson.keyText? = some text ↔ ¬value.Outgrows)

theorem Stands.cons {rows : List Row} {bound : DbValue} {text : String} {row : Row}
    (stands : Stands rows column bound text) (other : row.key? column ≠ some text) :
    Stands (row :: rows) column bound text := by
  obtain ⟨first, value, found, rest⟩ := stands
  have passed : (row.key? column == some text) = false := by simpa using other
  exact ⟨first, value, by rw [List.find?_cons, passed]; exact found, rest⟩

theorem collectFrom_stands (seen : List String) (rows : List Row) :
    List.Forall₂ (fun bound text => text ∉ seen ∧ Stands rows column bound text)
      (collectFrom column seen rows) (unseen seen (rows.filterMap (·.key? column))) := by
  induction rows generalizing seen with
  | nil => exact .nil
  | cons row rest ih =>
    rw [collectFrom, List.filterMap_cons]
    cases named : row.key? column with
    | none =>
      refine (ih seen).imp fun bound text ⟨fresh, stands⟩ => ⟨fresh, stands.cons ?_⟩
      simp [named]
    | some key =>
      dsimp only
      rw [unseen]
      split
      · rename_i known
        refine (ih seen).imp fun bound text ⟨fresh, stands⟩ => ⟨fresh, stands.cons ?_⟩
        rintro same
        obtain rfl := Option.some.inj (named.symm.trans same)
        exact fresh (List.contains_iff_mem.mp known)
      · rename_i fresh
        obtain ⟨value, held, shown⟩ := Option.bind_eq_some_iff.mp named
        refine .cons ⟨by simpa using fresh, row, value, by simp [named], held, by simp [held], ?_⟩ ?_
        · rw [held, Option.getD_some]
          exact DbValue.keyText?_ofJson shown
        · refine (ih (key :: seen)).imp fun bound text ⟨fresh, stands⟩ =>
            ⟨fun found => fresh (List.mem_cons_of_mem _ found), stands.cons ?_⟩
          rintro same
          obtain rfl := Option.some.inj (named.symm.trans same)
          exact fresh List.mem_cons_self

theorem collectKeys_forall₂ (rows : List Row) (column : String) :
    List.Forall₂ (Stands rows column) (collectKeys rows column)
      (distinct (rows.filterMap (·.key? column))) := by
  rw [distinct_eq_unseen]
  exact (collectFrom_stands [] rows).imp fun _ _ => And.right

/-- Whether the bound values read as the keys of the rows. -/
def NamesOwnKeys (rows : List Row) (column : String) : Prop :=
  (collectKeys rows column).map (fun bound => bound.toJson.keyText?) =
    (distinct (rows.filterMap (·.key? column))).map some

/-- One value is bound for every distinct key text, in order of first occurrence. All of them read as the
keys that they stand for exactly if none is taken from a number that outgrows it. -/
theorem collectKeys_stand (rows : List Row) (column : String) :
    List.Forall₂ (Stands rows column) (collectKeys rows column)
      (distinct (rows.filterMap (·.key? column))) ∧
    (NamesOwnKeys rows column ↔ ∀ text row value,
      rows.find? (fun row => row.key? column == some text) = some row →
        row.get? column = some value → ¬value.Outgrows) := by
  have all := collectKeys_forall₂ rows column
  refine ⟨all, ?_⟩
  rw [NamesOwnKeys, map_eq_map_iff_forall₂]
  constructor
  · intro reads text row value found held
    have named : row.key? column = some text := by simpa using List.find?_some found
    have listed : text ∈ distinct (rows.filterMap (·.key? column)) :=
      (mem_distinct _ _).mpr (List.mem_filterMap.mpr ⟨row, List.mem_of_find?_eq_some found, named⟩)
    obtain ⟨bound, ⟨first, kept, again, holds, -, exact⟩, read⟩ :=
      List.forall₂_same.mp (forall₂_of_common all reads) text listed
    obtain rfl := Option.some.inj (again.symm.trans found)
    obtain rfl := Option.some.inj (holds.symm.trans held)
    exact exact.mp read
  · intro held
    exact all.imp fun bound text ⟨row, value, found, has, _, reads⟩ =>
      reads.mpr (held text row value found has)

/-- Two rows with unsigned keys of 64 bits. -/
def ledger : List Row := [[("id", .int 9223372036854775809)], [("id", .int 9223372036854775810)]]

/-- Both keys are bound as the one floating point number that is nearest to them. -/
theorem not_namesOwnKeys_ledger :
    ¬NamesOwnKeys ledger "id" ∧
      collectKeys ledger "id" = List.replicate 2 (.float (Binary64.ofInt 9223372036854775808)) := by
  constructor
  · unfold NamesOwnKeys
    decide +kernel
  · decide +kernel

end Rows
end EagerLoad
