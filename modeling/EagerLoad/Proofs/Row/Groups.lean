import EagerLoad.Proofs.Row.Merge
import EagerLoad.Run.Fallback
import Mathlib.Data.List.Induction

/-! # Rows grouped by owner

Loading by keys binds one value for every key text. The group of an owner then holds all rows with
its key text, in their order, and the value of an owner is the one that its rows agree on. -/
namespace EagerLoad

namespace Rows

variable {column : String}

theorem exists_mem_collectKeys {rows : List Row} {row : Row} (known : row ∈ rows) {text : String}
    (keyed : row.key? column = some text) :
    ∃ other ∈ rows, ∃ value, other.get? column = some value ∧ value.keyText? = some text ∧
      DbValue.ofJson value ∈ collectKeys rows column := by
  have all (seen : List String) (unseen : text ∉ seen) :
      ∃ other ∈ rows, ∃ value, other.get? column = some value ∧ value.keyText? = some text ∧
        DbValue.ofJson value ∈ collectFrom column seen rows := by
    induction rows generalizing seen with
    | nil => exact absurd known (by simp)
    | cons first rest ih =>
      by_cases here : first.key? column = some text
      · obtain ⟨value, held, shown⟩ := Option.bind_eq_some_iff.mp here
        refine ⟨first, by simp, value, held, shown, ?_⟩
        rw [collectFrom, here]
        simp [unseen, held]
      · have later : row ∈ rest := by
          obtain rfl | later := List.mem_cons.mp known
          · exact absurd keyed here
          · exact later
        have step (seen : List String) (unseen : text ∉ seen) :
            ∃ other ∈ first :: rest, ∃ value, other.get? column = some value ∧
              value.keyText? = some text ∧ DbValue.ofJson value ∈ collectFrom column seen rest := by
          obtain ⟨other, found, holds⟩ := ih later seen unseen
          exact ⟨other, by simp [found], holds⟩
        rw [collectFrom]
        cases named : first.key? column with
        | none => exact step seen unseen
        | some name =>
          dsimp only
          split
          · exact step seen unseen
          · have apart : text ∉ name :: seen := by
              rintro (_ | ⟨_, found⟩)
              · exact here named
              · exact unseen found
            obtain ⟨other, found, value, held, shown, bound⟩ := step _ apart
            exact ⟨other, found, value, held, shown, List.mem_cons_of_mem _ bound⟩
  exact all [] (by simp)

end Rows

namespace Fallback

theorem lookup_groupRows (rows : List Row) (text : String) :
    ((groupRows rows).lookup text).getD [] =
      (rows.filter fun row => row.key? Keyed.ownerAlias = some text).map fun row =>
        (row.remove Keyed.ownerAlias).toObject := by
  induction rows using List.reverseRecOn with
  | nil => rfl
  | append_singleton rows row ih =>
    rw [List.filter_append, List.map_append, ← ih]
    unfold groupRows
    rw [List.foldl_append, List.foldl_cons, List.foldl_nil, List.filter_cons, List.filter_nil]
    cases named : row.key? Keyed.ownerAlias with
    | none => simp
    | some owner =>
      by_cases same : text = owner
      · subst same
        simp [lookup_upsert]
      · have other : ¬owner = text := fun equal => same equal.symm
        simp [lookup_upsert, same, other]

/-- The value of an owner is that of the last row with its key text. -/
theorem lookup_groupValues (rows : List Row) (text : String) :
    (groupValues rows).lookup text =
      ((rows.filter fun row => row.key? Keyed.ownerAlias = some text).getLast?).map fun row =>
        (row.get? Keyed.valueAlias).getD .null := by
  induction rows using List.reverseRecOn with
  | nil => rfl
  | append_singleton rows row ih =>
    unfold groupValues at ih ⊢
    rw [List.filter_append, List.foldl_append, List.foldl_cons, List.foldl_nil, List.filter_cons,
      List.filter_nil]
    cases named : row.key? Keyed.ownerAlias with
    | none => simp [ih]
    | some owner =>
      by_cases same : text = owner
      · subst same
        simp [lookup_upsert]
      · have other : ¬owner = text := fun equal => same equal.symm
        simp [lookup_upsert, same, other, ih]

/-- If the rows of an owner agree on a value, it is the value of the owner. -/
theorem lookup_groupValues_of_agree {rows : List Row} {text : String} {value : Json}
    (agree : ∀ row ∈ rows, row.key? Keyed.ownerAlias = some text →
      row.get? Keyed.valueAlias = some value) :
    (groupValues rows).lookup text =
      if rows.any fun row => row.key? Keyed.ownerAlias = some text then some value else none := by
  rw [lookup_groupValues]
  cases last : (rows.filter fun row => row.key? Keyed.ownerAlias = some text).getLast? with
  | none =>
    have empty := List.getLast?_eq_none_iff.mp last
    rw [if_neg]
    · rfl
    · simpa using empty
  | some row =>
    have listed := List.mem_filter.mp (List.mem_of_getLast? last)
    have owner : row.key? Keyed.ownerAlias = some text := by simpa using listed.2
    rw [if_pos (List.any_eq_true.mpr ⟨row, listed.1, listed.2⟩), Option.map_some, agree row listed.1 owner]
    rfl

end Fallback
end EagerLoad
