import EagerLoad.Plan.Compile
import EagerLoad.Proofs.Entity
import EagerLoad.Proofs.Sql.Draft

/-! # What the parts of a plan select

A part selects the columns that its selection resolves to, its relations, and the counts and
aggregates if it carries them. Its draft can be completed if all of them can, and the clauses after
them. -/
namespace EagerLoad

open Sql Sql.Draft

namespace Plan

theorem mem_names_force (columns : Columns) (forced : List String) (x : String) :
    x ∈ (force columns forced).names ↔ x ∈ columns.names ∨ x ∈ forced := by
  induction forced generalizing columns with
  | nil => simp [force]
  | cons column rest ih =>
    rw [force, List.foldl_cons, ← force, ih, List.mem_cons]
    by_cases known : column ∈ columns.names
    · rw [if_pos (by simpa using known)]
      grind
    · rw [if_neg (by simpa using known)]
      simp only [Columns.names, List.mem_append, List.mem_singleton]
      grind

theorem isSubqueryLabel_iff {p : Plan} {x : String} :
    p.isSubqueryLabel x = true ↔ x ∈ p.relations.map RelationRequest.label ∨
      x ∈ p.counts.map CountRequest.label ∨ x ∈ p.aggregates.map AggregateRequest.label := by
  simp [isSubqueryLabel, or_assoc]

/-- The names of all columns that are subqueries. -/
def labels (p : Plan) : List String :=
  p.relations.map RelationRequest.label ++ p.counts.map CountRequest.label ++
    p.aggregates.map AggregateRequest.label

theorem mem_labels {p : Plan} {x : String} : x ∈ p.labels ↔ p.isSubqueryLabel x = true := by
  rw [isSubqueryLabel_iff, labels, List.mem_append, List.mem_append, or_assoc]

theorem relations_subset_labels (p : Plan) : p.relations.map RelationRequest.label ⊆ p.labels :=
  fun _ listed => List.mem_append_left _ (List.mem_append_left _ listed)

theorem eq_nil_of_unlabelled {p : Plan} (none : ∀ label, p.isSubqueryLabel label = false) :
    p.relations = [] ∧ p.counts = [] ∧ p.aggregates = [] := by
  have empty (label : String) : ¬p.isSubqueryLabel label = true := by simp [none label]
  simp only [isSubqueryLabel_iff, not_or] at empty
  have nil {labels : List String} (unlisted : ∀ label, label ∉ labels) : labels = [] :=
    List.eq_nil_iff_forall_not_mem.mpr unlisted
  refine ⟨?_, ?_, ?_⟩
  · exact List.map_eq_nil_iff.mp (nil fun label => (empty label).1)
  · exact List.map_eq_nil_iff.mp (nil fun label => (empty label).2.1)
  · exact List.map_eq_nil_iff.mp (nil fun label => (empty label).2.2)

/-- What a statement counts over: the rows of a counted plan, with the counts and aggregates that are left. -/
def countedPart : Part :=
  { relations := [], scalars := true, forced := [], byKeys := false, bounded := false }

variable (p : Plan) (c : Compiler) (part : Part) (columns : Columns)

def relationItems (relations : List RelationRequest) : List Draft :=
  relations.map (Subquery.relation (p.context c) p.entity p.table)

def scalarItems : List Draft :=
  p.counts.map (Subquery.count (p.context c) p.entity p.table) ++
    p.aggregates.map (Subquery.aggregate (p.context c) p.entity p.table)

def askedItems : List Draft :=
  columns.items p.table p.satelliteAlias ++
    part.relations.map (Subquery.relation (p.context c) p.entity p.table) ++
    if part.scalars then
      p.counts.map (Subquery.count (p.context c) p.entity p.table) ++
        p.aggregates.map (Subquery.aggregate (p.context c) p.entity p.table)
    else []

theorem selectItems_eq :
    p.selectItems c part columns =
      if (p.askedItems c part columns).isEmpty then [qualified p.table p.entity.primaryKey]
      else p.askedItems c part columns := rfl

theorem mem_askedItems (item : Draft) :
    item ∈ p.askedItems c part columns ↔
      item ∈ columns.items p.table p.satelliteAlias ∨
        item ∈ part.relations.map (Subquery.relation (p.context c) p.entity p.table) ∨
        part.scalars = true ∧
          (item ∈ p.counts.map (Subquery.count (p.context c) p.entity p.table) ∨
            item ∈ p.aggregates.map (Subquery.aggregate (p.context c) p.entity p.table)) := by
  rw [askedItems, List.mem_append, List.mem_append, or_assoc]
  cases part.scalars with
  | true => rw [if_pos rfl, List.mem_append, eq_self, true_and]
  | false => simp

theorem mem_selectItems_of_asked {item : Draft} (h : item ∈ p.askedItems c part columns) :
    item ∈ p.selectItems c part columns := by
  rw [selectItems_eq]
  cases asked : p.askedItems c part columns with
  | nil => exact absurd h (by simp [asked])
  | cons first rest => simpa [asked] using h

/-- A draft can be completed if its columns resolve and all that it selects and reads can. -/
theorem draft_complete_iff :
    (p.draft c part).failure? = none ↔ ∃ columns, p.partColumns c part = .ok columns ∧
      (∀ item ∈ p.selectItems c part columns, item.failure? = none) ∧
      (Step.name p.table).failure? = none ∧
      (if part.byKeys then p.openKeys else p.satelliteJoin c ++ p.clauses c part).failure? = none := by
  unfold draft
  rw [failure?_append, failure?_andThen]
  have consulted : failure? (if p.locale.isSome then
      [.consult p.entity.type (p.localization? c)] else []) = none := by
    split <;> rfl
  simp [consulted, failure?_separated, Step.failure?]

section Complete

variable {p c part} (complete : (p.draft c part).failure? = none)
include complete

private theorem asked_complete {item : Draft}
    (asked : ∀ columns, item ∈ p.askedItems c part columns) : item.failure? = none := by
  obtain ⟨columns, -, chosen, -⟩ := (p.draft_complete_iff c part).mp complete
  exact chosen item (p.mem_selectItems_of_asked c part columns (asked columns))

/-- Subqueries can be completed with a part that carries them. -/
theorem relation_complete_of_part {r : RelationRequest} (known : r ∈ part.relations) :
    (Subquery.relation (p.context c) p.entity p.table r).failure? = none :=
  asked_complete complete fun columns =>
    (p.mem_askedItems c part columns _).mpr (.inr (.inl (List.mem_map_of_mem known)))

theorem count_complete_of_part (scalars : part.scalars = true) {count : CountRequest}
    (known : count ∈ p.counts) :
    (Subquery.count (p.context c) p.entity p.table count).failure? = none :=
  asked_complete complete fun columns =>
    (p.mem_askedItems c part columns _).mpr (.inr (.inr ⟨scalars, .inl (List.mem_map_of_mem known)⟩))

theorem aggregate_complete_of_part (scalars : part.scalars = true) {a : AggregateRequest}
    (known : a ∈ p.aggregates) :
    (Subquery.aggregate (p.context c) p.entity p.table a).failure? = none :=
  asked_complete complete fun columns =>
    (p.mem_askedItems c part columns _).mpr (.inr (.inr ⟨scalars, .inr (List.mem_map_of_mem known)⟩))

end Complete

end Plan
end EagerLoad
