import EagerLoad.Proofs.Relation.Written
import EagerLoad.Relation.Keyed

/-! # Statements for owner keys

A relation, count or aggregate whose subquery can be completed can also be loaded by the keys of its
owners. Both read the same source, and both are written from the vocabulary. -/
namespace EagerLoad

open Sql Sql.Draft

theorem Sql.Draft.failure?_bindList (values : List DbValue) : failure? (bindList values) = none := by
  rw [bindList, failure?_separated]
  intro draft found
  obtain ⟨value, -, rfl⟩ := List.mem_map.mp found
  rfl

namespace Source

variable {s : Source} {locale : Option String} {base : Entity} {filter : Option Filter}
  {baseAlias : String}

theorem owner_complete
    (complete : (s.body locale base filter (.correlated baseAlias)).failure? = none) :
    s.owner.failure? = none := by
  simp only [body, scope, link, failure?_append, failure?_cons] at complete
  exact complete.1.2.2.1.1.1

theorem baseKey_complete
    (complete : (s.body locale base filter (.correlated baseAlias)).failure? = none) :
    (Step.name s.relation.baseKey).failure? = none := by
  simp only [body, scope, link, qualified, failure?_append, failure?_cons] at complete
  exact complete.1.2.2.1.1.2.2.2.2.1

/-- Rows that can be tied to a base row can be tied to keys. -/
theorem body_keys_complete (keys : List DbValue)
    (complete : (s.body locale base filter (.correlated baseAlias)).failure? = none) :
    (s.body locale base filter (.keys keys)).failure? = none := by
  have owner := owner_complete complete
  have tie : (s.link (.keys keys)).failure? = none := by
    cases keys with
    | nil => rfl
    | cons key rest =>
      have bound := failure?_bindList (key :: rest)
      simp [link, owner, bound, Step.failure?]
  simp only [body, scope, failure?_append, failure?_cons] at complete ⊢
  obtain ⟨⟨tables, word, ⟨-, ownerClass⟩, deleted⟩, conditions⟩ := complete
  exact ⟨⟨tables, word, ⟨tie, ownerClass⟩, deleted⟩, conditions⟩

theorem orderClause_complete {terms : List OrderTerm}
    (complete : (orderDraft s.qualifier terms).failure? = none) :
    (s.orderClause terms).failure? = none := by
  unfold orderClause
  split
  · rfl
  · simp [complete, Step.failure?]

end Source

theorem Columns.selectList_complete {c : Columns} {d : Dialect} {mainAlias satelliteAlias : String}
    (complete : (c.object d mainAlias satelliteAlias).failure? = none) :
    (c.selectList mainAlias satelliteAlias).failure? = none := by
  have pairs : ∀ draft ∈ c.main.map (pair mainAlias) ++ c.localized.map (pair satelliteAlias),
      draft.failure? = none := by
    simp only [object, failure?_append] at complete
    exact (failure?_separated _ _).mp complete.1.2
  rw [selectList, failure?_separated]
  intro item found
  obtain found | found := List.mem_append.mp found
  · obtain ⟨column, known, rfl⟩ := List.mem_map.mp found
    have written := pairs (pair mainAlias column)
      (List.mem_append_left _ (List.mem_map_of_mem known))
    exact ((failure?_append _ _).mp written).2
  · obtain ⟨column, known, rfl⟩ := List.mem_map.mp found
    have written := pairs (pair satelliteAlias column)
      (List.mem_append_right _ (List.mem_map_of_mem known))
    have reference : (qualified satelliteAlias column).failure? = none :=
      ((failure?_append _ _).mp written).2
    have name : (Step.name column).failure? = none := by
      simp only [qualified, failure?_cons] at reference
      exact reference.2.2.1
    simp only [failure?_append, failure?_cons]
    exact ⟨reference, rfl, name, rfl⟩

namespace Subquery

variable {ctx : Context} {base : Entity} {baseAlias : String}

section Rows

variable {s : Source} {columns : Columns} {filter : Option Filter} {link : Link}

private theorem single_parts (complete : (single ctx base s columns filter link).failure? = none) :
    (s.body ctx.locale base filter link).failure? = none ∧
      (columns.selectList s.relatedAlias s.satelliteAlias).failure? = none ∧
      (s.orderClause (orderOf filter)).failure? = none := by
  simp only [single, failure?_append, failure?_cons] at complete
  obtain ⟨⟨⟨⟨-, object⟩, -, body⟩, order⟩, -⟩ := complete
  exact ⟨body, Columns.selectList_complete object, order⟩

private theorem plainCollection_parts
    (ordered : (orderOf filter).isEmpty = true ∨ ctx.dialect.ordersAggregate = true)
    (complete : (plainCollection ctx base s columns filter link).failure? = none) :
    (s.body ctx.locale base filter link).failure? = none ∧
      (columns.selectList s.relatedAlias s.satelliteAlias).failure? = none ∧
      (s.orderClause (orderOf filter)).failure? = none := by
  simp only [plainCollection, arrayOf, failure?_append, failure?_cons] at complete
  obtain ⟨⟨-, ⟨⟨-, object⟩, order⟩, -⟩, body⟩ := complete
  refine ⟨body, Columns.selectList_complete object, ?_⟩
  obtain unordered | aggregated := ordered
  · rw [Source.orderClause, if_pos unordered]
    rfl
  · apply Source.orderClause_complete
    cases written : orderDraft s.qualifier (orderOf filter) with
    | nil => rfl
    | cons step rest =>
      rw [aggregated, written] at order
      simpa [Step.failure?] using order

private theorem derivedCollection_parts
    (complete : (derivedCollection ctx base s columns filter link).failure? = none) :
    (s.body ctx.locale base filter link).failure? = none ∧
      (columns.selectList s.relatedAlias s.satelliteAlias).failure? = none ∧
      (s.orderClause (orderOf filter)).failure? = none := by
  simp only [derivedCollection, failure?_append, failure?_cons] at complete
  obtain ⟨⟨⟨⟨⟨-, -, selectList⟩, body⟩, order⟩, -⟩, -⟩ := complete
  exact ⟨body, selectList, order⟩

private theorem collection_parts
    (complete : (collection ctx base s columns filter link).failure? = none) :
    (s.body ctx.locale base filter link).failure? = none ∧
      (columns.selectList s.relatedAlias s.satelliteAlias).failure? = none ∧
      (s.orderClause (orderOf filter)).failure? = none := by
  unfold collection at complete
  split at complete
  · rename_i plain
    rw [Bool.and_eq_true, Bool.or_eq_true] at plain
    exact plainCollection_parts plain.2 complete
  · exact derivedCollection_parts complete

end Rows

/-- The subquery of a relation reads a source, has a shape, and names only valid columns. -/
theorem relation_parts {r : RelationRequest}
    (complete : (relation ctx base baseAlias r).failure? = none) :
    ∃ s columns shape, Source.resolve ctx base r.name true = .ok s ∧
      r.projection s = .ok columns ∧ r.shape base = .ok shape ∧
      (s.body ctx.locale base r.filter (.correlated baseAlias)).failure? = none ∧
      (columns.selectList s.relatedAlias s.satelliteAlias).failure? = none ∧
      (s.orderClause (orderOf r.filter)).failure? = none := by
  unfold relation at complete
  obtain ⟨-, -, complete⟩ := failure?_andThen.mp complete
  obtain ⟨s, resolved, complete⟩ := Source.failure?_andThen.mp complete
  obtain ⟨-, complete⟩ := (failure?_append _ _).mp complete
  obtain ⟨columns, projected, complete⟩ := failure?_andThen.mp complete
  obtain ⟨shape, shaped, complete⟩ := failure?_andThen.mp complete
  refine ⟨s, columns, shape, resolved, projected, shaped, ?_⟩
  simp only [failure?_append, failure?_cons] at complete
  cases shape with
  | one => exact single_parts complete.1.2
  | many => exact collection_parts complete.1.2

theorem count_parts {c : CountRequest} (complete : (count ctx base baseAlias c).failure? = none) :
    ∃ s, Source.resolve ctx base c.relation false = .ok s ∧
      (s.body ctx.locale base c.filter (.correlated baseAlias)).failure? = none := by
  obtain ⟨s, resolved, complete⟩ := Source.failure?_andThen.mp complete
  simp only [failure?_append, failure?_cons] at complete
  exact ⟨s, resolved, complete.1.2⟩

theorem aggregate_parts {a : AggregateRequest}
    (complete : (aggregate ctx base baseAlias a).failure? = none) :
    ∃ s, Source.resolve ctx base a.relation false = .ok s ∧
      (aggregateCall ctx.dialect s a).failure? = none ∧
      (s.body ctx.locale base a.filter (.correlated baseAlias)).failure? = none := by
  unfold aggregate at complete
  split at complete
  · exact absurd complete (by simp [Step.failure?])
  · obtain ⟨s, resolved, complete⟩ := Source.failure?_andThen.mp complete
    simp only [failure?_append, failure?_cons] at complete
    exact ⟨s, resolved, complete.1.1.2, complete.1.2⟩

end Subquery

namespace Keyed

variable {ctx : Context} {base : Entity} {baseAlias : String} (keys : List DbValue)

private theorem ownerItem_complete {s : Source} (owner : s.owner.failure? = none) :
    (ownerItem s).failure? = none := by
  have named : (Step.name ownerAlias).failure? = none := by decide
  simp only [ownerItem, failure?_append, failure?_cons]
  exact ⟨owner, rfl, named, rfl⟩

/-- A relation whose rows can be read and ordered can be loaded by keys with any columns that can be
listed. -/
theorem relation_complete_of_projection {r : RelationRequest} {selection : ColumnSelection}
    {s : Source} {columns : Columns} (resolved : Source.resolve ctx base r.name true = .ok s)
    (projected : RelationRequest.projection { r with columns := selection } s = .ok columns)
    (body : (s.body ctx.locale base r.filter (.correlated baseAlias)).failure? = none)
    (selectList : (columns.selectList s.relatedAlias s.satelliteAlias).failure? = none)
    (order : (s.orderClause (Subquery.orderOf r.filter)).failure? = none) :
    (relation ctx base r selection keys).failure? = none := by
  have owner := ownerItem_complete (Source.owner_complete body)
  have tied := Source.body_keys_complete keys body
  have notices : failure? (RelationRequest.projectionNotices { r with columns := selection }
      |>.map .notice) = none := by
    simp [failure?_eq_none_iff, Step.failure?]
  refine Source.failure?_andThen.mpr ⟨s, resolved, (failure?_append _ _).mpr ⟨notices, ?_⟩⟩
  refine failure?_andThen.mpr ⟨columns, projected, ?_⟩
  have projection : failure? (if columns.isEmpty then []
      else .text ", " :: columns.selectList s.relatedAlias s.satelliteAlias) = none := by
    split
    · rfl
    · simp [selectList, Step.failure?]
  simp only [failure?_append, failure?_cons]
  exact ⟨⟨⟨⟨rfl, owner⟩, projection⟩, tied⟩, order⟩

/-- A relation that can be selected as a subquery can be loaded by keys. -/
theorem relation_complete {r : RelationRequest}
    (complete : (Subquery.relation ctx base baseAlias r).failure? = none) :
    (relation ctx base r r.columns keys).failure? = none := by
  obtain ⟨s, columns, -, resolved, projected, -, body, selectList, order⟩ :=
    Subquery.relation_parts complete
  exact relation_complete_of_projection keys resolved projected body selectList order

private theorem grouped_complete {s : Source} {value : Draft} {filter : Option Filter}
    (written : value.failure? = none)
    (body : (s.body ctx.locale base filter (.correlated baseAlias)).failure? = none) :
    (grouped ctx base s value filter keys).failure? = none := by
  have owner := Source.owner_complete body
  have item := ownerItem_complete owner
  have tied := Source.body_keys_complete keys body
  have named : (Step.name valueAlias).failure? = none := by decide
  simp only [grouped, failure?_append, failure?_cons]
  exact ⟨⟨⟨⟨⟨rfl, item⟩, rfl, written⟩, rfl, named, rfl⟩, tied⟩, rfl, owner⟩

theorem count_complete {c : CountRequest}
    (complete : (Subquery.count ctx base baseAlias c).failure? = none) :
    (count ctx base c keys).failure? = none := by
  obtain ⟨s, resolved, body⟩ := Subquery.count_parts complete
  have value : failure? [.text "COUNT(*)"] = none := rfl
  exact Source.failure?_andThen.mpr ⟨s, resolved, grouped_complete keys value body⟩

theorem aggregate_complete {a : AggregateRequest}
    (complete : (Subquery.aggregate ctx base baseAlias a).failure? = none) :
    (aggregate ctx base a keys).failure? = none := by
  obtain ⟨s, resolved, call, body⟩ := Subquery.aggregate_parts complete
  have names := call
  simp only [Subquery.aggregateCall, qualified, failure?_append, failure?_cons] at names
  obtain ⟨⟨-, table, -, column, -⟩, -⟩ := names
  have required : failure? [.require s.relatedAlias, .require a.column] = none := by
    simp only [failure?_cons]
    exact ⟨table, column, rfl⟩
  refine Source.failure?_andThen.mpr ⟨s, resolved, ?_⟩
  exact (failure?_append _ _).mpr ⟨required, grouped_complete keys call body⟩

variable {allowed : Allowed} (looked : ctx.Consults allowed)

private theorem ownerItem_written (s : Source) : Written allowed (ownerItem s) :=
  (Written.qualified _ _).append (.word (by decide) (.name _ .nil))

private theorem grouped_written (s : Source) {value : Draft} {filter : Option Filter}
    (written : Written allowed value) (h : ∀ sql ∈ rawsOf filter, allowed.raw sql) :
    Written allowed (grouped ctx base s value filter keys) := by
  have item : Written allowed (.text "SELECT " :: ownerItem s) :=
    .word (by decide) (ownerItem_written s)
  have named : Written allowed [.text " AS ", .name valueAlias] :=
    .word (by decide) (.name _ .nil)
  have body := s.body_written base ctx.locale filter (.keys keys) h
  have groups : Written allowed (.text " GROUP BY " :: s.owner) :=
    .word (by decide) (Written.qualified _ _)
  exact (((item.append (.word (by decide) written)).append named).append body).append groups

include looked

theorem relation_written (r : RelationRequest) (columns : ColumnSelection)
    (h : ∀ sql ∈ rawsOf r.filter, allowed.raw sql) :
    Written allowed (relation ctx base r columns keys) := by
  refine Subquery.andThen_written ctx base looked _ _ fun s => ?_
  refine Written.append ?_ (Written.andThen fun projected _ => ?_)
  · unfold RelationRequest.projectionNotices
    split
    · split
      · exact .silent rfl .nil
      · exact .nil
    · exact .nil
  · have item : Written allowed (.text "SELECT " :: ownerItem s) :=
      .word (by decide) (ownerItem_written s)
    have body := s.body_written base ctx.locale r.filter (.keys keys) h
    refine ((item.append ?_).append body).append (s.orderClause_written _)
    split
    · exact .nil
    · exact .word (by decide) (projected.selectList_written _ _)

theorem count_written (c : CountRequest) (h : ∀ sql ∈ rawsOf c.filter, allowed.raw sql) :
    Written allowed (count ctx base c keys) := by
  refine Subquery.andThen_written ctx base looked _ _ fun s => ?_
  exact grouped_written keys s (.word (by decide) .nil) h

theorem aggregate_written (a : AggregateRequest) (h : ∀ sql ∈ rawsOf a.filter, allowed.raw sql) :
    Written allowed (aggregate ctx base a keys) := by
  refine Subquery.andThen_written ctx base looked _ _ fun s => ?_
  exact .silent rfl (.silent rfl
    (grouped_written keys s (Subquery.aggregateCall_written ctx.dialect s a) h))

end Keyed
end EagerLoad
