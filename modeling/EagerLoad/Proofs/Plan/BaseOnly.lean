import EagerLoad.Proofs.Plan.Split

/-! # The base rows alone

A plan of which a part can be written with all of its clauses can be written without its subqueries, with
valid key columns added. Order terms that name a subquery are left out. -/
namespace EagerLoad.Plan

open Sql Sql.Draft

variable {p : Plan} {c : Compiler}

section Parts

variable {part : Part} (complete : (p.draft c part).failure? = none) (all : part.byKeys = false)
include complete all

/-- A part whose rows are the plan's own selects the columns of the plan, with those forced on it. -/
theorem columns_of_part :
    ∃ own, Columns.resolve p.entity p.columns (p.localization? c) = .ok own ∧
      ∀ item ∈ p.selectItems c part (force own part.forced), item.failure? = none := by
  obtain ⟨columns, resolved, chosen, -⟩ := (p.draft_complete_iff c part).mp complete
  rw [partColumns, all] at resolved
  obtain ⟨own, selects, rfl⟩ := map_eq_ok_iff.mp resolved
  exact ⟨own, selects, chosen⟩

end Parts

section Subqueries

variable (complete : (p.unsplitDraft c).failure? = none)
include complete

theorem resolve_of_unsplit :
    ∃ own, Columns.resolve p.entity p.columns (p.localization? c) = .ok own :=
  (columns_of_part complete rfl).imp fun _ => And.left

theorem relation_complete_of_unsplit {r : RelationRequest} (known : r ∈ p.relations) :
    (Subquery.relation (p.context c) p.entity p.table r).failure? = none :=
  relation_complete_of_part complete known

theorem count_complete_of_unsplit {count : CountRequest} (known : count ∈ p.counts) :
    (Subquery.count (p.context c) p.entity p.table count).failure? = none :=
  count_complete_of_part complete rfl known

theorem aggregate_complete_of_unsplit {a : AggregateRequest} (known : a ∈ p.aggregates) :
    (Subquery.aggregate (p.context c) p.entity p.table a).failure? = none :=
  aggregate_complete_of_part complete rfl known

end Subqueries

private theorem mem_items_force (columns : Columns) (keys : List String) (item : Draft) :
    item ∈ (force columns keys).items p.table p.satelliteAlias →
      item ∈ columns.items p.table p.satelliteAlias ∨ ∃ key ∈ keys, item = qualified p.table key := by
  induction keys generalizing columns with
  | nil => exact .inl
  | cons key rest ih =>
    intro found
    rw [force, List.foldl_cons, ← force] at found
    obtain found | ⟨other, known, rfl⟩ := ih _ found
    · split at found
      · exact .inl found
      · simp only [Columns.items, List.map_append, List.mem_append, List.map_cons, List.map_nil,
          List.mem_singleton] at found ⊢
        obtain (found | rfl) | found := found
        · exact .inl (.inl found)
        · exact .inr ⟨key, by simp, rfl⟩
        · exact .inl (.inr found)
    · exact .inr ⟨other, by simp [known], rfl⟩

private theorem orderTail_complete {part other : Part}
    (silent : ∀ name, p.emits other name = false) (terms : List OrderTerm) (separator next : String)
    (complete : (p.orderTail c part separator terms).failure? = none) :
    (p.orderTail c other next terms).failure? = none := by
  induction terms generalizing separator next with
  | nil => rfl
  | cons term rest ih =>
    unfold orderTail at complete ⊢
    rw [silent, if_neg Bool.false_ne_true]
    by_cases label : p.isSubqueryLabel term.column = true
    · have rest : ∃ separator, (p.orderTail c part separator rest).failure? = none := by
        simp only [label, Bool.not_true, Bool.false_eq_true, if_false] at complete
        split at complete
        · exact ⟨_, ((failure?_append _ _).mp complete).2⟩
        · exact ⟨_, ((failure?_cons _ _).mp complete).2⟩
      obtain ⟨_, later⟩ := rest
      simp only [label, Bool.not_true, Bool.false_eq_true, if_false, failure?_cons]
      exact ⟨rfl, ih _ _ later⟩
    · simp only [label, Bool.not_false, if_true, failure?_append, failure?_cons] at complete ⊢
      exact ⟨⟨rfl, complete.1.2⟩, ih _ _ complete.2⟩

/-- The clauses of base rows alone are those of any part, without the labels that they are ordered by. -/
private theorem clauses_basePart_complete {part : Part}
    (complete : (p.clauses c part).failure? = none) (keys : List String) :
    (p.clauses c (basePart keys)).failure? = none := by
  have silent (name : String) : p.emits (basePart keys) name = false := rfl
  simp only [Plan.clauses, failure?_append] at complete ⊢
  obtain ⟨⟨before, order⟩, -⟩ := complete
  exact ⟨⟨before, orderTail_complete silent _ _ _ order⟩, rfl⟩

/-- With keys the select list of base rows alone is not empty. -/
private theorem askedItems_basePart_ne_nil {keys : List String} (some : keys ≠ []) (own : Columns) :
    p.askedItems c (basePart keys) (force own keys) ≠ [] := by
  intro empty
  obtain ⟨key, known⟩ := List.exists_mem_of_ne_nil _ some
  have named : key ∈ (force own keys).names := (mem_names_force _ _ _).mpr (.inr known)
  have written : (force own keys).items p.table p.satelliteAlias = [] := by
    simpa [askedItems, basePart] using empty
  simp only [Columns.items, List.append_eq_nil_iff, List.map_eq_nil_iff] at written
  simp [Columns.names, written.1, written.2] at named

/-- The base rows of a part can be read alone, with the keys of its subqueries. -/
theorem baseOnly_complete {part : Part} (complete : (p.draft c part).failure? = none)
    (all : part.byKeys = false) {keys : List String}
    (valid : ∀ key ∈ keys, (Step.name key).failure? = none)
    (alone : keys = [] → part.relations = [] ∧ part.forced = [] ∧ p.counts = [] ∧ p.aggregates = []) :
    (p.baseOnlyDraft c keys).failure? = none := by
  obtain ⟨own, selects, chosen⟩ := columns_of_part complete all
  obtain ⟨-, -, -, table, rest⟩ := (p.draft_complete_iff c _).mp complete
  have forced : p.partColumns c (basePart keys) = .ok (force own keys) :=
    map_eq_ok_iff.mpr ⟨own, selects, rfl⟩
  have column : ∀ key ∈ keys, (qualified p.table key).failure? = none := by
    intro key known
    simp only [qualified, failure?_cons]
    exact ⟨table, rfl, valid key known, rfl⟩
  have items : ∀ item ∈ p.askedItems c (basePart keys) (force own keys), item.failure? = none := by
    intro item found
    simp only [askedItems, basePart, List.map_nil, List.append_nil, Bool.false_eq_true, if_false]
      at found
    obtain found | ⟨key, known, rfl⟩ := mem_items_force own keys item found
    · exact chosen item (p.mem_selectItems_of_asked c _ _ ((p.mem_askedItems c _ _ _).mpr
        (.inl (items_subset_force own _ _ _ found))))
    · exact column key known
  have clauses : (p.satelliteJoin c ++ p.clauses c (basePart keys)).failure? = none := by
    simp only [all, Bool.false_eq_true, if_false, failure?_append] at rest ⊢
    exact ⟨rest.1, clauses_basePart_complete rest.2 keys⟩
  refine (p.draft_complete_iff c _).mpr ⟨force own keys, forced, ?_, table, clauses⟩
  intro item found
  rw [selectItems_eq] at found
  split at found
  · -- Nothing is asked for, so the part selects what stands for nothing too.
    rename_i empty
    obtain rfl : keys = [] := by
      by_contra some
      exact askedItems_basePart_ne_nil (p := p) (c := c) some own (List.isEmpty_iff.mp empty)
    obtain ⟨relations, unforced, counts, aggregates⟩ := alone rfl
    have same : p.askedItems c part own = p.askedItems c (basePart []) own := by
      simp [askedItems, basePart, relations, counts, aggregates]
    rw [unforced] at chosen
    apply chosen
    rw [selectItems_eq, force, List.foldl_nil, same]
    exact (if_pos empty).symm ▸ found
  · exact items item found

end EagerLoad.Plan
