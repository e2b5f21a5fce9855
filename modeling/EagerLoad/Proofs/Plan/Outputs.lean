import EagerLoad.Proofs.Plan.Split
import EagerLoad.Run.Execution

/-! # The columns of answers

The statement of a part gives its rows the columns that it selects, the relations, and the counts and
aggregates if it carries them. -/
namespace EagerLoad.Plan

/-- The columns that the statement of a part gives its rows. -/
def outputs (p : Plan) (c : Compiler) (part : Part) : List String :=
  match p.partColumns c part with
  | .ok columns =>
    let scalars :=
      if part.scalars then
        p.counts.map CountRequest.label ++ p.aggregates.map AggregateRequest.label
      else []
    let names := columns.names ++ part.relations.map RelationRequest.label ++ scalars
    if names.isEmpty then [p.entity.primaryKey] else names
  | .error _ => []

/-- Whether a part selects something under a name. -/
def Selects (p : Plan) (part : Part) (columns : Columns) (x : String) : Prop :=
  x ∈ columns.names ∨ x ∈ part.relations.map RelationRequest.label ∨
    part.scalars = true ∧ (x ∈ p.counts.map CountRequest.label ∨
      x ∈ p.aggregates.map AggregateRequest.label)

theorem mem_outputs {p : Plan} {c : Compiler} {part : Part} {columns : Columns}
    (resolved : p.partColumns c part = .ok columns) (some : ∃ y, p.Selects part columns y)
    (x : String) : x ∈ p.outputs c part ↔ p.Selects part columns x := by
  have names (y : String) :
      y ∈ columns.names ++ part.relations.map RelationRequest.label ++
        (if part.scalars then
          p.counts.map CountRequest.label ++ p.aggregates.map AggregateRequest.label
        else []) ↔ p.Selects part columns y := by
    rw [List.mem_append, List.mem_append, or_assoc, Selects]
    cases part.scalars with
    | true => rw [if_pos rfl, List.mem_append, eq_self, true_and]
    | false => simp
  obtain ⟨y, selected⟩ := some
  have full := List.ne_nil_of_mem ((names y).mpr selected)
  rw [← names x]
  unfold outputs
  rw [resolved]
  dsimp only
  rw [if_neg (by rwa [List.isEmpty_iff])]

theorem mem_outputs_wholePart {p : Plan} {c : Compiler} {own : Columns}
    (resolved : Columns.resolve p.entity p.columns (p.localization? c) = .ok own)
    (some : ∃ label, p.isSubqueryLabel label = true) (x : String) :
    x ∈ p.outputs c p.wholePart ↔ x ∈ own.names ∨ p.isSubqueryLabel x = true := by
  have columns : p.partColumns c p.wholePart = .ok own := map_eq_ok_iff.mpr ⟨own, resolved, rfl⟩
  have selects (y : String) :
      p.Selects p.wholePart own y ↔ y ∈ own.names ∨ p.isSubqueryLabel y = true := by
    rw [isSubqueryLabel_iff, Selects]
    simp [wholePart]
  obtain ⟨label, known⟩ := some
  rw [mem_outputs columns ⟨label, (selects label).mpr (.inr known)⟩, selects]

theorem mem_outputs_firstPart {p : Plan} {c : Compiler} {own : Columns}
    (resolved : Columns.resolve p.entity p.columns (p.localization? c) = .ok own)
    (batch : List RelationRequest) (x : String) :
    x ∈ p.outputs c (p.firstPart batch) ↔ (x ∈ own.names ∨ x = p.entity.primaryKey) ∨
      x ∈ batch.map RelationRequest.label ∨
      x ∈ p.counts.map CountRequest.label ∨ x ∈ p.aggregates.map AggregateRequest.label := by
  have columns : p.partColumns c (p.firstPart batch) =
      .ok (force own [p.entity.primaryKey]) := map_eq_ok_iff.mpr ⟨own, resolved, rfl⟩
  have forced : p.entity.primaryKey ∈ (force own [p.entity.primaryKey]).names :=
    (mem_names_force _ _ _).mpr (.inr (by simp))
  rw [mem_outputs columns ⟨_, .inl forced⟩, Selects, mem_names_force]
  simp [firstPart]

theorem mem_outputs_basePart {p : Plan} {c : Compiler} {own : Columns}
    (resolved : Columns.resolve p.entity p.columns (p.localization? c) = .ok own)
    {keys : List String} (some : keys ≠ []) (x : String) :
    x ∈ p.outputs c (basePart keys) ↔ x ∈ own.names ∨ x ∈ keys := by
  have columns : p.partColumns c (basePart keys) = .ok (force own keys) :=
    map_eq_ok_iff.mpr ⟨own, resolved, rfl⟩
  obtain ⟨key, known⟩ := List.exists_mem_of_ne_nil _ some
  have forced : key ∈ (force own keys).names := (mem_names_force _ _ _).mpr (.inr known)
  rw [mem_outputs columns ⟨key, .inl forced⟩, Selects, mem_names_force]
  simp [basePart]

/-- Without subqueries and keys the base rows alone are the whole. -/
theorem outputs_basePart_nil {p : Plan} (c : Compiler)
    (none : ∀ label, p.isSubqueryLabel label = false) :
    p.outputs c (basePart []) = p.outputs c p.wholePart := by
  obtain ⟨relations, counts, aggregates⟩ := eq_nil_of_unlabelled none
  have columns : p.partColumns c (basePart []) = p.partColumns c p.wholePart := rfl
  unfold outputs
  rw [columns]
  simp [basePart, wholePart, relations, counts, aggregates]

/-- The primary key is selected exactly if it is asked for, unless it may be localized. -/
theorem mem_ownColumns_iff {p : Plan} {c : Compiler} {own : Columns}
    (resolved : Columns.resolve p.entity p.columns (p.localization? c) = .ok own)
    (plain : p.entity.primaryKey ∉ p.entity.localizedFields) :
    p.entity.primaryKey ∈ own.names ↔ Optimizer.asksFor p p.entity.primaryKey = true := by
  have readable : p.entity.primaryKey ∈ p.entity.localizedFields →
      (p.localization? c).isSome = true := fun localized => absurd localized plain
  rw [Columns.mem_names_resolve resolved, and_iff_left readable, Optimizer.asksFor]
  cases p.columns with
  | columns names => simp [Columns.requested]
  | all =>
    have declared : p.entity.primaryKey ∈ p.entity.allColumns := by
      rw [Entity.allColumns, mem_distinct]
      simp
    cases p.localization? c with
    | none => simp [Columns.requested, declared]
    | some l => simp [Columns.requested, mem_foldl_addNew, declared]

section Key

variable {p : Plan} {c : Compiler} {own : Columns}
  (resolved : Columns.resolve p.entity p.columns (p.localization? c) = .ok own)
  (some : ∃ label, p.isSubqueryLabel label = true)
include resolved some

/-- The plan's own statement selects the primary key exactly if it is asked for. -/
theorem primaryKey_mem_outputs_wholePart (labels : p.isSubqueryLabel p.entity.primaryKey = false)
    (plain : p.entity.primaryKey ∉ p.entity.localizedFields) :
    p.entity.primaryKey ∈ p.outputs c p.wholePart ↔
      Optimizer.asksFor p p.entity.primaryKey = true := by
  rw [mem_outputs_wholePart resolved some, mem_ownColumns_iff resolved plain, labels]
  simp

/-- Besides the relations and the key, the first part of a split selects what the whole plan does. -/
theorem mem_outputs_firstPart_iff_wholePart {batch : List RelationRequest}
    (part : batch ⊆ p.relations) {x : String}
    (unrelated : x ∉ p.relations.map RelationRequest.label) (other : x ≠ p.entity.primaryKey) :
    x ∈ p.outputs c (p.firstPart batch) ↔ x ∈ p.outputs c p.wholePart := by
  have earlier : x ∉ batch.map RelationRequest.label :=
    fun found => unrelated (List.map_subset _ part found)
  rw [mem_outputs_firstPart resolved, mem_outputs_wholePart resolved some, isSubqueryLabel_iff]
  simp only [other, earlier, unrelated, or_false, false_or]

end Key

end EagerLoad.Plan
