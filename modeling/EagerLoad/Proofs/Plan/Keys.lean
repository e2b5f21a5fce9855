import EagerLoad.Proofs.Plan.BaseOnly
import EagerLoad.Proofs.Plan.Outputs
import EagerLoad.Proofs.Relation.Keyed
import EagerLoad.Run.Fallback

/-! # The keys of subqueries

Every relation that a plan needs hangs off a base column. If the plan can be written these columns are
known and valid, and each relation loads the columns that its subquery selects. -/
namespace EagerLoad

open Sql Sql.Draft

/-- Whether the columns that a request lists are columns of the related entity. A list that is given
is not empty. -/
def RelationRequest.Declared (registry : Registry) (base : Entity) (r : RelationRequest) : Prop :=
  ∀ names, r.columns = .columns names → r.isNested = false → names ≠ [] ∧
    ∀ relation related, base.relation? r.name = some relation →
      registry.get? relation.related = some related →
      ∀ name ∈ names, related.hasColumn name = true ∨ name ∈ related.localizedFields

theorem Fallback.declaredSelection_eq {registry : Registry} {base : Entity} {r : RelationRequest}
    (declared : r.Declared registry base) {relation : Relation} {related : Entity}
    (known : base.relation? r.name = some relation)
    (registered : registry.get? relation.related = some related) :
    declaredSelection registry base r = .ok (r.columns, false) := by
  unfold declaredSelection
  cases selected : r.columns with
  | all => rfl
  | columns names =>
    dsimp only
    cases nested : r.isNested with
    | true => rfl
    | false =>
      obtain ⟨given, valid⟩ := declared names selected nested
      have kept : declaredColumns related names = names := by
        rw [declaredColumns, List.filter_eq_self]
        intro name listed
        simpa using valid relation related known registered name listed
      have resolved := Registry.resolve_eq_ok_iff.mpr registered
      rw [if_neg Bool.false_ne_true, known]
      simp [resolved, Except.map, kept, given]

namespace Plan

def keyOf (p : Plan) (relation : String) : String :=
  ((p.entity.relation? relation).map Relation.baseKey).getD ""

/-- The base columns that the relations of a plan hang off, each once. -/
def keys (p : Plan) : List String := distinct ((Fallback.relationNames p).map p.keyOf)

/-- The columns of the objects of a relation. -/
def relatedColumns (p : Plan) (c : Compiler) (r : RelationRequest) : List String :=
  match Source.resolve (p.context c) p.entity r.name true with
  | .ok s => match r.projection s with
    | .ok columns => columns.names
    | .error _ => []
  | .error _ => []

variable {p : Plan} {c : Compiler}

theorem relation_named {r : RelationRequest} (known : r ∈ p.relations) :
    r.name ∈ Fallback.relationNames p ∧ p.isSubqueryLabel r.label = true := by
  have listed := List.mem_map_of_mem (f := RelationRequest.name) known
  have labelled := List.mem_map_of_mem (f := RelationRequest.label) known
  exact ⟨List.mem_append_left _ (List.mem_append_left _ listed),
    isSubqueryLabel_iff.mpr (.inl labelled)⟩

theorem count_named {count : CountRequest} (known : count ∈ p.counts) :
    count.relation ∈ Fallback.relationNames p ∧ p.isSubqueryLabel count.label = true := by
  have listed := List.mem_map_of_mem (f := CountRequest.relation) known
  have labelled := List.mem_map_of_mem (f := CountRequest.label) known
  exact ⟨List.mem_append_left _ (List.mem_append_right _ listed),
    isSubqueryLabel_iff.mpr (.inr (.inl labelled))⟩

theorem aggregate_named {a : AggregateRequest} (known : a ∈ p.aggregates) :
    a.relation ∈ Fallback.relationNames p ∧ p.isSubqueryLabel a.label = true := by
  have listed := List.mem_map_of_mem (f := AggregateRequest.relation) known
  have labelled := List.mem_map_of_mem (f := AggregateRequest.label) known
  exact ⟨List.mem_append_right _ listed, isSubqueryLabel_iff.mpr (.inr (.inr labelled))⟩

private theorem baseKey_of_source {ctx : Context} {name : String} {localized : Bool} {s : Source}
    {filter : Option Filter} (resolved : Source.resolve ctx p.entity name localized = .ok s)
    (body : (s.body ctx.locale p.entity filter (.correlated p.table)).failure? = none) :
    Fallback.baseKey p.entity name = .ok (p.keyOf name) ∧
      (Step.name (p.keyOf name)).failure? = none := by
  obtain ⟨declared, -, -, -⟩ := Source.resolve_eq_ok_iff.mp resolved
  have key : p.keyOf name = s.relation.baseKey := by simp [keyOf, declared]
  refine ⟨?_, ?_⟩
  · rw [Fallback.baseKey, declared, key]
  · rw [key]
    exact Source.baseKey_complete body

/-- Whether the columns of a plan resolve and all of its subqueries can be written. -/
structure Writable (p : Plan) (c : Compiler) : Prop where
  columns : ∃ own, Columns.resolve p.entity p.columns (p.localization? c) = .ok own
  relations : ∀ r ∈ p.relations,
    (Subquery.relation (p.context c) p.entity p.table r).failure? = none
  counts : ∀ count ∈ p.counts,
    (Subquery.count (p.context c) p.entity p.table count).failure? = none
  aggregates : ∀ a ∈ p.aggregates,
    (Subquery.aggregate (p.context c) p.entity p.table a).failure? = none

/-- A part that carries all relations and scalars can only be written with all of them. -/
theorem writable_of_unsplit (complete : (p.unsplitDraft c).failure? = none) : p.Writable c where
  columns := resolve_of_unsplit complete
  relations _ known := relation_complete_of_unsplit complete known
  counts _ known := count_complete_of_unsplit complete known
  aggregates _ known := aggregate_complete_of_unsplit complete known

/-- The relations of a plan that can be written hang off valid columns. -/
theorem Writable.baseKey (writable : p.Writable c) {name : String}
    (known : name ∈ Fallback.relationNames p) :
    Fallback.baseKey p.entity name = .ok (p.keyOf name) ∧
      (Step.name (p.keyOf name)).failure? = none := by
  simp only [Fallback.relationNames, List.mem_append] at known
  obtain (known | known) | known := known
  · obtain ⟨r, listed, rfl⟩ := List.mem_map.mp known
    obtain ⟨s, -, -, resolved, -, -, body, -⟩ := Subquery.relation_parts (writable.relations r listed)
    exact baseKey_of_source resolved body
  · obtain ⟨count, listed, rfl⟩ := List.mem_map.mp known
    obtain ⟨s, resolved, body⟩ := Subquery.count_parts (writable.counts count listed)
    exact baseKey_of_source resolved body
  · obtain ⟨a, listed, rfl⟩ := List.mem_map.mp known
    obtain ⟨s, resolved, -, body⟩ := Subquery.aggregate_parts (writable.aggregates a listed)
    exact baseKey_of_source resolved body

theorem baseKey_of_unsplit (complete : (p.unsplitDraft c).failure? = none) {name : String}
    (known : name ∈ Fallback.relationNames p) :
    Fallback.baseKey p.entity name = .ok (p.keyOf name) ∧
      (Step.name (p.keyOf name)).failure? = none :=
  (writable_of_unsplit complete).baseKey known

theorem mem_keys {key : String} :
    key ∈ p.keys ↔ ∃ name ∈ Fallback.relationNames p, p.keyOf name = key := by
  rw [keys, mem_distinct, List.mem_map]

theorem Writable.baseKeys (writable : p.Writable c) : Fallback.baseKeys p = .ok p.keys := by
  refine map_eq_ok_iff.mpr ⟨(Fallback.relationNames p).map p.keyOf, ?_, rfl⟩
  rw [mapM_eq_ok_iff, List.forall₂_map_right_iff, List.forall₂_same]
  exact fun name known => (writable.baseKey known).1

theorem unlabelled_of_keys_nil (none : p.keys = []) (label : String) :
    p.isSubqueryLabel label = false := by
  have names : Fallback.relationNames p = [] := by
    rw [List.eq_nil_iff_forall_not_mem]
    intro name known
    have key : p.keyOf name ∈ p.keys := mem_keys.mpr ⟨name, known, rfl⟩
    exact absurd key (by simp [none])
  simp only [Fallback.relationNames, List.append_eq_nil_iff, List.map_eq_nil_iff] at names
  obtain ⟨⟨relations, counts⟩, aggregates⟩ := names
  simp [isSubqueryLabel, relations, counts, aggregates]

theorem keys_eq_nil (none : ∀ label, p.isSubqueryLabel label = false) : p.keys = [] := by
  obtain ⟨relations, counts, aggregates⟩ := eq_nil_of_unlabelled none
  simp [keys, Fallback.relationNames, relations, counts, aggregates, distinct]

/-- Apart from the subqueries, a plan selects what the base rows with the keys have, without the keys
that it does not select itself. -/
theorem mem_outputs_whole_iff {own : Columns}
    (resolved : Columns.resolve p.entity p.columns (p.localization? c) = .ok own) {x : String}
    (other : p.isSubqueryLabel x = false) :
    x ∈ p.outputs c p.wholePart ↔ x ∈ p.outputs c (basePart p.keys) ∧
      x ∉ p.keys.filter fun key => !own.names.contains key := by
  by_cases some : ∃ label, p.isSubqueryLabel label = true
  · have full : p.keys ≠ [] := by
      intro empty
      obtain ⟨label, known⟩ := some
      rw [unlabelled_of_keys_nil empty] at known
      exact Bool.false_ne_true known
    have whole := mem_outputs_wholePart resolved some x
    have base := mem_outputs_basePart resolved full x
    rw [whole, base, other, List.mem_filter]
    by_cases selected : x ∈ own.names <;> simp [selected]
  · have none : ∀ label, p.isSubqueryLabel label = false := by
      intro label
      simpa using not_exists.mp some label
    rw [keys_eq_nil none, outputs_basePart_nil c none]
    simp

/-- The base rows of a part that can be written can be read with the keys of the plan's subqueries. -/
theorem Writable.baseOnly (writable : p.Writable c) {part : Part}
    (complete : (p.draft c part).failure? = none) (all : part.byKeys = false)
    (alone : p.keys = [] → part.relations = [] ∧ part.forced = []) :
    (p.baseOnlyDraft c p.keys).failure? = none := by
  refine baseOnly_complete complete all (fun key known => ?_) fun none => ?_
  · obtain ⟨name, listed, rfl⟩ := mem_keys.mp known
    exact (writable.baseKey listed).2
  · obtain ⟨-, counts, aggregates⟩ := eq_nil_of_unlabelled (unlabelled_of_keys_nil none)
    exact ⟨(alone none).1, (alone none).2, counts, aggregates⟩

theorem baseOnly_keys_complete (complete : (p.unsplitDraft c).failure? = none) :
    (p.baseOnlyDraft c p.keys).failure? = none :=
  (writable_of_unsplit complete).baseOnly complete rfl fun none =>
    ⟨(eq_nil_of_unlabelled (unlabelled_of_keys_nil none)).1, rfl⟩

end Plan
end EagerLoad
