import EagerLoad.Proofs.Plan.Lookups
import EagerLoad.Proofs.Plan.Split

/-! # Compiling a plan again

A plan is compiled to the same whenever the memo finds the same, whatever else it remembers. What
compilation looks up is found already, so the memo goes on to find the same. -/
namespace EagerLoad

open Sql Sql.Draft

namespace Subquery

variable {ctx other : Context} (alike : ctx.Alike other) (base : Entity) (baseAlias : String)
include alike

theorem relation_congr (r : RelationRequest) :
    relation ctx base baseAlias r = relation other base baseAlias r := by
  unfold relation
  rw [Source.andThen_congr alike]
  simp only [single, collection, plainCollection, derivedCollection, alike.locale, alike.dialect]

theorem count_congr (c : CountRequest) :
    count ctx base baseAlias c = count other base baseAlias c := by
  unfold count
  rw [Source.andThen_congr alike, alike.locale]

theorem aggregate_congr (a : AggregateRequest) :
    aggregate ctx base baseAlias a = aggregate other base baseAlias a := by
  unfold aggregate
  rw [Source.andThen_congr alike, alike.locale, alike.dialect]

theorem search_congr (relation : String) (columns : List String) (pattern : String) :
    search ctx base baseAlias relation columns pattern =
      search other base baseAlias relation columns pattern := by
  unfold search
  rw [Source.andThen_congr alike, alike.locale, alike.dialect]

end Subquery

/-- Whether two compilers write the same about an entity: they agree in all but what their memos remember
and in the settings that statements do not depend on. -/
structure Compiler.Alike (base : Entity) (c other : Compiler) : Prop where
  dialect : c.dialect = other.dialect
  registry : c.registry = other.registry
  maxRelations : c.config.maxRelations = other.config.maxRelations
  maxLimit : c.config.maxLimit = other.config.maxLimit
  memo : Memo.Alike other.registry base c.memo other.memo

namespace Plan

variable {p : Plan} {c other : Compiler}

section Alike

variable (alike : c.Alike p.entity other)
include alike

theorem localization?_alike : p.localization? c = p.localization? other := by
  have found := alike.memo p.entity (.inl rfl)
  simp only [Memo.localization?_consult, if_true] at found
  unfold localization?
  rw [found]

theorem partColumns_alike (part : Part) : p.partColumns c part = p.partColumns other part := by
  unfold partColumns
  rw [localization?_alike alike]

theorem qualifier_alike : p.qualifier c = p.qualifier other := by
  unfold qualifier
  rw [localization?_alike alike]

theorem orderTail_alike (part : Part) (separator : String) (terms : List OrderTerm) :
    p.orderTail c part separator terms = p.orderTail other part separator terms := by
  induction terms generalizing separator with
  | nil => rfl
  | cons term rest ih =>
    unfold orderTail
    rw [qualifier_alike alike, ih, ih]

variable (sound : other.registry.Sound)
include sound

theorem contexts_alike : (p.context c).Alike (p.context other) := by
  obtain ⟨dialect, registry, memo, config⟩ := c
  obtain ⟨rfl, rfl, -, -, found⟩ := alike
  exact context_alike sound found

theorem selectItems_alike (part : Part) : p.selectItems c part = p.selectItems other part := by
  have context := contexts_alike alike sound
  have relations : Subquery.relation (p.context c) p.entity p.table =
      Subquery.relation (p.context other) p.entity p.table :=
    funext (Subquery.relation_congr context p.entity p.table)
  have counts : Subquery.count (p.context c) p.entity p.table =
      Subquery.count (p.context other) p.entity p.table :=
    funext (Subquery.count_congr context p.entity p.table)
  have aggregates : Subquery.aggregate (p.context c) p.entity p.table =
      Subquery.aggregate (p.context other) p.entity p.table :=
    funext (Subquery.aggregate_congr context p.entity p.table)
  funext columns
  simp only [selectItems, relations, counts, aggregates]

theorem searchDraft_alike : p.searchDraft c = p.searchDraft other := by
  have searches : Subquery.search (p.context c) p.entity p.table =
      Subquery.search (p.context other) p.entity p.table := by
    funext relation columns pattern
    exact Subquery.search_congr (contexts_alike alike sound) p.entity p.table relation columns pattern
  funext s
  simp only [searchDraft, qualifier_alike alike, searches, alike.dialect]

theorem clauses_alike (part : Part) : p.clauses c part = p.clauses other part := by
  have tests : p.tests c = p.tests other := by
    unfold tests
    rw [qualifier_alike alike, searchDraft_alike alike sound]
  have limit : p.rowLimit c part = p.rowLimit other part := by
    unfold rowLimit
    rw [alike.maxLimit]
  unfold clauses
  rw [tests, limit, orderTail_alike alike, alike.dialect]

/-- Every part of a plan is written alike. -/
theorem draft_alike : p.draft c = p.draft other := by
  have satellite : p.satelliteJoin c = p.satelliteJoin other := by
    unfold satelliteJoin
    rw [localization?_alike alike]
  funext part
  unfold draft
  rw [localization?_alike alike, partColumns_alike alike, selectItems_alike alike sound, satellite,
    clauses_alike alike sound]

/-- Both compilers compile a plan to the same, or fail with the same error. -/
theorem compile_alike : p.compile c = p.compile other := by
  have limit : p.relationLimit c.config = p.relationLimit other.config := by
    rw [relationLimit, relationLimit, alike.maxRelations]
  have cut : p.isSplit c.config = p.isSplit other.config := by
    rw [isSplit, isSplit, limit]
  have batches : p.batches c.config = p.batches other.config := by
    rw [Plan.batches, Plan.batches, limit]
  have unsplit : p.unsplit c = p.unsplit other := by
    unfold unsplit unsplitDraft
    rw [draft_alike alike sound, alike.dialect]
  have followUps : p.followUp c = p.followUp other := by
    funext batch
    unfold followUp
    rw [draft_alike alike sound, alike.dialect]
  have split : p.split c = p.split other := by
    unfold split firstDraft laterBatches
    rw [draft_alike alike sound, followUps, batches, alike.dialect]
  unfold compile
  rw [unsplit, split, cut]

end Alike

/-- Compilation looks up only what is found already. -/
theorem trail_finds (sound : c.registry.Sound) : Written (p.finds c) (p.trail c) := by
  have noticed : Written (p.finds c) (if c.config.debug && c.config.complexityThreshold < p.subqueries
      then [Step.notice .manySubqueries] else []) := by
    split
    · exact .silent rfl .nil
    · exact .nil
  refine noticed.append (Written.andThen fun _ _ => ?_)
  split
  · have first : Written (p.finds c) (p.firstDraft c) :=
      draft_finds sound (p.firstBatch_subset c.config)
    refine first.append (Written.flatMap fun batch known => ?_)
    exact draft_finds sound (p.laterBatch_subset known)
  · exact draft_finds sound (List.Subset.refl _)

section Counting

theorem counted_entity (p : Plan) : p.counted.entity = p.entity := by
  unfold counted
  dsimp only
  split <;> rfl

/-- Both compilers count the rows of a plan alike. -/
theorem count_alike (alike : c.Alike p.entity other) (sound : other.registry.Sound) :
    p.count c = p.count other := by
  have same : p.countDraft c = p.countDraft other := by
    rw [countDraft, countDraft, draft_alike (p := p.counted) (by rwa [counted_entity]) sound]
  rw [count, count, same, alike.dialect]

/-- Counting looks up only what is found already. -/
theorem countDraft_finds (sound : c.registry.Sound) : Written (p.finds c) (p.countDraft c) := by
  have same : p.counted.finds c = p.finds c := by
    rw [finds, finds, counted_entity]
  rw [← same]
  exact draft_finds sound (List.nil_subset _)

end Counting

end Plan
end EagerLoad
