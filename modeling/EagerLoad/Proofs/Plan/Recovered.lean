import EagerLoad.Proofs.Plan.Split
import EagerLoad.Proofs.Relation.Openings

/-! # What a base statement tells of its plan

The select list of a base statement shows how many relations it carries and whether the primary key was
added. So plans that select the same and have the same base statement are split alike, and all of their
statements are the same. -/
namespace EagerLoad

open Sql Sql.Draft

theorem headD_chunksOf {size : Nat} (some : 0 < size) (items : List α) :
    (chunksOf size items).headD [] = items.take size := by
  cases items with
  | nil => simp [chunksOf]
  | cons x rest =>
    obtain ⟨size, rfl⟩ := Nat.exists_eq_succ_of_ne_zero (Nat.ne_of_gt some)
    simp [chunksOf]

namespace Plan

/-- Whether two plans select the same of their rows. -/
structure SelectsAlike (p q : Plan) : Prop where
  entity : p.entity = q.entity
  columns : p.columns = q.columns
  relations : p.relations = q.relations
  counts : p.counts = q.counts
  aggregates : p.aggregates = q.aggregates
  locale : p.locale = q.locale

section Main

variable (p : Plan) (config : Config)

/-- How many relations the base statement carries. -/
def carried : Nat := if p.isSplit config then p.relationLimit config else p.relations.length

/-- The key by which later relations are added to their rows. -/
def addedKey : List String := if p.isSplit config then [p.entity.primaryKey] else []

/-- What the base statement carries. -/
def mainPart : Part :=
  { relations := p.relations.take (p.carried config), scalars := true, forced := p.addedKey config,
    byKeys := false, bounded := true }

theorem carried_le : p.carried config ≤ p.relations.length := by
  unfold carried
  split
  · rename_i split
    simp only [isSplit, Bool.and_eq_true, decide_eq_true_eq] at split
    exact Nat.le_of_lt split.2
  · exact Nat.le_refl _

variable {p config}

theorem carried_of_split (split : p.isSplit config = true) :
    0 < p.carried config ∧ p.carried config < p.relations.length ∧
      p.carried config = p.relationLimit config ∧ p.addedKey config = [p.entity.primaryKey] := by
  have limits := split
  simp only [isSplit, Bool.and_eq_true, decide_eq_true_eq] at limits
  rw [carried, addedKey, if_pos split, if_pos split]
  exact ⟨limits.1, limits.2, rfl, rfl⟩

theorem carried_of_not_split (single : ¬p.isSplit config = true) :
    p.carried config = p.relations.length ∧ p.addedKey config = [] := by
  rw [carried, addedKey, if_neg single, if_neg single]
  exact ⟨rfl, rfl⟩

theorem compile_base {c : Compiler} {compiled : CompiledPlan} (h : p.compile c = .ok compiled) :
    Statement.ofDraft c.dialect (p.draft c (p.mainPart c.config)) = .ok compiled.query.base := by
  obtain ⟨-, -, written⟩ := compile_eq_ok_iff.mp h
  split at written
  · rename_i split
    obtain ⟨s, written, same⟩ := written
    obtain ⟨first, -, -⟩ := split_eq_ok_iff.mp written
    obtain ⟨some, -, limit, key⟩ := carried_of_split split
    have part : p.mainPart c.config = p.firstPart ((p.batches c.config).headD []) := by
      rw [mainPart, firstPart, key, batches, headD_chunksOf (limit ▸ some), limit]
    rw [part, same]
    exact first
  · rename_i single
    obtain ⟨s, written, same⟩ := written
    obtain ⟨all, key⟩ := carried_of_not_split single
    have part : p.mainPart c.config = p.wholePart := by
      rw [mainPart, wholePart, key, all, List.take_length]
    rw [part, same]
    exact written

end Main

section Items

variable (p : Plan) (c : Compiler) (columns : Columns)

theorem askedItems_mainPart : p.askedItems c (p.mainPart c.config) columns =
    columns.items p.table p.satelliteAlias ++
      p.relationItems c (p.relations.take (p.carried c.config)) ++ p.scalarItems c := rfl

variable {p c columns}

theorem relationItems_take_ne_nil {n : Nat} (some : 0 < n) (bound : n ≤ p.relations.length) :
    p.relationItems c (p.relations.take n) ≠ [] := by
  intro none
  have length := congrArg List.length none
  rw [relationItems, List.length_map, List.length_take, List.length_nil] at length
  omega

/-- With relations to select the items are those asked for. -/
theorem selectItems_mainPart (some : 0 < p.carried c.config) :
    p.selectItems c (p.mainPart c.config) columns = p.askedItems c (p.mainPart c.config) columns ∧
      p.relationItems c (p.relations.take (p.carried c.config)) ≠ [] := by
  have nonempty : p.relationItems c (p.relations.take (p.carried c.config)) ≠ [] :=
    relationItems_take_ne_nil some (p.carried_le c.config)
  refine ⟨?_, nonempty⟩
  rw [selectItems_eq, if_neg]
  rw [askedItems_mainPart]
  simp [nonempty]

/-- Where the relations end a count or an aggregate follows, or nothing. -/
theorem scalars_diverge {scalars more : List Draft} {r : RelationRequest}
    (subset : scalars ⊆ p.scalarItems c)
    (complete : ∀ item ∈ scalars, item.failure? = none)
    (relation : (Subquery.relation (p.context c) p.entity p.table r).failure? = none) :
    Diverging c.dialect (Subquery.relation (p.context c) p.entity p.table r :: more) scalars := by
  cases scalars with
  | nil => trivial
  | cons scalar rest =>
    obtain ⟨opening, known, x, shape⟩ := Subquery.relation_opens (d := c.dialect) relation
    have scalarOpens : ∃ opening ∈ Subquery.scalarOpenings, ∃ y,
        scalar.text c.dialect = opening ++ y := by
      obtain found | found := List.mem_append.mp (subset List.mem_cons_self)
      · obtain ⟨count, -, rfl⟩ := List.mem_map.mp found
        exact Subquery.count_opens (complete _ List.mem_cons_self)
      · obtain ⟨aggregate, -, rfl⟩ := List.mem_map.mp found
        exact Subquery.aggregate_opens (complete _ List.mem_cons_self)
    obtain ⟨other, listed, y, second⟩ := scalarOpens
    rw [Diverging, shape, second]
    exact diverge_more (Subquery.openings_diverge _ opening known other listed) x y

/-- Lists with different numbers of relations diverge. -/
theorem longer_diverges {m n : Nat} (some : 0 < m) (less : m < n) (bound : n ≤ p.relations.length)
    (complete : ∀ item ∈ columns.items p.table p.satelliteAlias ++
      p.relationItems c (p.relations.take n) ++ p.scalarItems c, item.failure? = none)
    (x y : List Char) :
    diverge
      (text c.dialect (separated ", " (columns.items p.table p.satelliteAlias ++
        p.relationItems c (p.relations.take m) ++ p.scalarItems c)) ++ ' ' :: x)
      (text c.dialect (separated ", " (columns.items p.table p.satelliteAlias ++
        p.relationItems c (p.relations.take n) ++ p.scalarItems c)) ++ ' ' :: y) = true := by
  obtain ⟨r, rest, later⟩ : ∃ r rest, (p.relations.take n).drop m = r :: rest := by
    apply List.exists_cons_of_ne_nil
    intro none
    have length := congrArg List.length none
    rw [List.length_drop, List.length_take, List.length_nil] at length
    omega
  have cut : p.relations.take n = p.relations.take m ++ r :: rest := by
    have parts := List.take_append_drop m (p.relations.take n)
    rw [List.take_take, Nat.min_eq_left (Nat.le_of_lt less), later] at parts
    exact parts.symm
  have split : columns.items p.table p.satelliteAlias ++ p.relationItems c (p.relations.take n) ++
      p.scalarItems c =
        (columns.items p.table p.satelliteAlias ++ p.relationItems c (p.relations.take m)) ++
          (Subquery.relation (p.context c) p.entity p.table r ::
            (p.relationItems c rest ++ p.scalarItems c)) := by
    rw [cut]
    simp [relationItems]
  have nonempty : columns.items p.table p.satelliteAlias ++
      p.relationItems c (p.relations.take m) ≠ [] := fun none =>
    relationItems_take_ne_nil some (by omega) (List.append_eq_nil_iff.mp none).2
  rw [split] at complete ⊢
  have relation := complete _ (List.mem_append_right _ List.mem_cons_self)
  have scalars : ∀ item ∈ p.scalarItems c, item.failure? = none := fun item found =>
    complete item (List.mem_append_right _ (List.mem_cons_of_mem _ (List.mem_append_right _ found)))
  have space (z w : List Char) : diverge (' ' :: z) (", ".toList ++ w) = true := rfl
  have diverging : Diverging c.dialect (Subquery.relation (p.context c) p.entity p.table r ::
      (p.relationItems c rest ++ p.scalarItems c)) (p.scalarItems c) :=
    scalars_diverge (List.Subset.refl _) scalars relation
  exact diverge_separated (.inl nonempty) (Diverging.symm diverging) (space x) (space y)

/-- A localized column is qualified by another name than the key's table, which the quote ends. -/
private theorem key_diverges_localized (column : String) :
    diverge (text c.dialect (qualified p.table p.entity.primaryKey))
      (text c.dialect (qualified p.satelliteAlias column ++ [.text " AS ", .name column])) = true := by
  have mark : '_' ≠ c.dialect.quoteMark := Ne.symm (quoteMark_ne c.dialect).2.2
  have ending : "_trans".toList = '_' :: "trans".toList := by decide
  rw [qualified, qualified, List.cons_append, text_cons _ (Step.name p.table),
    text_cons _ (Step.name p.satelliteAlias)]
  exact diverge_quote c.dialect p.table ending mark (by decide) _ _

private theorem key_diverges_relation {r : RelationRequest}
    (complete : (Subquery.relation (p.context c) p.entity p.table r).failure? = none) :
    diverge (text c.dialect (qualified p.table p.entity.primaryKey))
      (text c.dialect (Subquery.relation (p.context c) p.entity p.table r)) = true := by
  obtain ⟨opening, known, z, shape⟩ := Subquery.relation_opens (d := c.dialect) complete
  obtain ⟨w, rfl⟩ := Subquery.relationOpenings_paren known
  rw [shape, qualified, text_cons, List.cons_append]
  exact diverge_quote_paren c.dialect p.table _ _

/-- A list in which the primary key was added diverges from one without it. -/
theorem keyed_diverges {m n : Nat} (some : 0 < n) (bound : n ≤ p.relations.length)
    (complete : ∀ item ∈ columns.items p.table p.satelliteAlias ++
      p.relationItems c (p.relations.take n) ++ p.scalarItems c, item.failure? = none)
    (x y : List Char) :
    diverge
      (text c.dialect (separated ", " (Columns.items
        { columns with main := columns.main ++ [p.entity.primaryKey] } p.table p.satelliteAlias ++
          p.relationItems c (p.relations.take m) ++ p.scalarItems c)) ++ ' ' :: x)
      (text c.dialect (separated ", " (columns.items p.table p.satelliteAlias ++
        p.relationItems c (p.relations.take n) ++ p.scalarItems c)) ++ ' ' :: y) = true := by
  obtain ⟨r, rest, first⟩ : ∃ r rest, p.relations.take n = r :: rest := by
    apply List.exists_cons_of_ne_nil
    intro none
    exact relationItems_take_ne_nil (c := c) some bound (by rw [none]; rfl)
  have relation : (Subquery.relation (p.context c) p.entity p.table r).failure? = none := by
    apply complete
    rw [first]
    simp [relationItems]
  have keyed : Columns.items { columns with main := columns.main ++ [p.entity.primaryKey] } p.table
      p.satelliteAlias ++ p.relationItems c (p.relations.take m) ++ p.scalarItems c =
        columns.main.map (qualified p.table) ++ (qualified p.table p.entity.primaryKey ::
          (columns.localized.map fun column =>
            qualified p.satelliteAlias column ++ [.text " AS ", .name column]) ++
          p.relationItems c (p.relations.take m) ++ p.scalarItems c) := by
    simp [Columns.items]
  have unkeyed : columns.items p.table p.satelliteAlias ++
      p.relationItems c (p.relations.take n) ++ p.scalarItems c =
        columns.main.map (qualified p.table) ++ ((columns.localized.map fun column =>
            qualified p.satelliteAlias column ++ [.text " AS ", .name column]) ++
          p.relationItems c (r :: rest) ++ p.scalarItems c) := by
    simp [Columns.items, first]
  have space (z w : List Char) : diverge (' ' :: z) (", ".toList ++ w) = true := rfl
  rw [keyed, unkeyed]
  refine diverge_separated (.inr ⟨by simp, by simp [relationItems]⟩) ?_ (space x) (space y)
  cases columns.localized with
  | nil => exact key_diverges_relation relation
  | cons column more => exact key_diverges_localized column

end Items

section Texts

variable {p : Plan} {c : Compiler} {compiled : CompiledPlan}

/-- The base statement as it is finished: the select list, and what follows it after a space. -/
theorem base_text (h : p.compile c = .ok compiled) :
    ∃ own rest, Columns.resolve p.entity p.columns (p.localization? c) = .ok own ∧
      (∀ item ∈ p.selectItems c (p.mainPart c.config) (force own (p.addedKey c.config)),
        item.failure? = none) ∧
      compiled.query.base.sql.toList = render c.dialect 0 ("SELECT ".toList ++
        (text c.dialect (separated ", "
          (p.selectItems c (p.mainPart c.config) (force own (p.addedKey c.config)))) ++
          ' ' :: rest)) := by
  obtain ⟨complete, same⟩ := (ofDraft_eq_ok_iff _ _ _).mp (compile_base h)
  obtain ⟨columns, selected, chosen, -⟩ := (p.draft_complete_iff c _).mp complete
  obtain ⟨own, resolved, forced⟩ := map_eq_ok_iff.mp selected
  obtain rfl : force own (p.addedKey c.config) = columns := forced
  have consulted : text c.dialect (if p.locale.isSome then
      [Step.consult p.entity.type (p.localization? c)] else []) = [] := by
    split <;> rfl
  refine ⟨own, "FROM ".toList ++ text c.dialect (Step.name p.table ::
    (p.satelliteJoin c ++ p.clauses c (p.mainPart c.config))), resolved, chosen, ?_⟩
  have keyword : " FROM ".toList = ' ' :: "FROM ".toList := by decide
  have written : (p.draft c (p.mainPart c.config)).text c.dialect = "SELECT ".toList ++
      (text c.dialect (separated ", "
        (p.selectItems c (p.mainPart c.config) (force own (p.addedKey c.config)))) ++
        ' ' :: ("FROM ".toList ++ text c.dialect (Step.name p.table ::
          (p.satelliteJoin c ++ p.clauses c (p.mainPart c.config))))) := by
    have rest : (if (p.mainPart c.config).byKeys = true then p.openKeys
        else p.satelliteJoin c ++ p.clauses c (p.mainPart c.config)) =
          p.satelliteJoin c ++ p.clauses c (p.mainPart c.config) := rfl
    rw [Plan.draft, text_append, consulted, selected, andThen, rest]
    simp only [List.cons_append, text_cons, text_append, Step.sql, keyword, List.nil_append,
      List.append_assoc]
  rw [← same, toList_ofFragment, ← written]
  rfl

end Texts

namespace SelectsAlike

variable {p q : Plan} {c : Compiler}

theorem symm (h : SelectsAlike p q) : SelectsAlike q p :=
  ⟨h.entity.symm, h.columns.symm, h.relations.symm, h.counts.symm, h.aggregates.symm, h.locale.symm⟩

variable (h : SelectsAlike p q)
include h

theorem localization : p.localization? c = q.localization? c := by
  rw [localization?, localization?, h.locale, h.entity]

theorem context : p.context c = q.context c := by
  rw [Plan.context, Plan.context, h.locale, h.entity]

theorem items (columns : Columns) (m : Nat) :
    columns.items q.table q.satelliteAlias ++ q.relationItems c (q.relations.take m) ++
        q.scalarItems c =
      columns.items p.table p.satelliteAlias ++ p.relationItems c (p.relations.take m) ++
        p.scalarItems c := by
  unfold relationItems scalarItems satelliteAlias table
  rw [h.context, h.entity, h.relations, h.counts, h.aggregates]

/-- A follow-up is written from what the plans select alike. -/
theorem followUp (batch : List RelationRequest) : p.followUp c batch = q.followUp c batch := by
  obtain ⟨entity, columns, relations, counts, aggregates, locale⟩ := h
  cases p
  cases q
  dsimp only at entity columns relations counts aggregates locale
  subst entity columns relations counts aggregates locale
  rfl

theorem layout : p.layout = q.layout := by
  rw [Plan.layout, Plan.layout, h.relations, h.entity]

end SelectsAlike

section Recovered

variable {p q : Plan} {c : Compiler} {a b : CompiledPlan}

/-- A plan that is not split carries all relations, so it carries more than one that is. -/
private theorem carried_lt (h : SelectsAlike p q) (split : p.isSplit c.config = true)
    (single : ¬q.isSplit c.config = true) : p.carried c.config < q.carried c.config := by
  rw [(carried_of_not_split single).1, ← h.relations]
  exact (carried_of_split split).2.1

/-- A split plan has another base statement than a plan that carries more relations. -/
private theorem base_ne_of_lt (h : SelectsAlike p q) (pa : p.compile c = .ok a)
    (qb : q.compile c = .ok b) (split : p.isSplit c.config = true)
    (less : p.carried c.config < q.carried c.config) : a.query.base.sql ≠ b.query.base.sql := by
  obtain ⟨own, x, resolved, -, left⟩ := base_text pa
  obtain ⟨own', y, resolved', complete, right⟩ := base_text qb
  obtain ⟨some, -, -, key⟩ := carried_of_split split
  have more := Nat.lt_trans some less
  rw [← h.localization, ← h.columns, ← h.entity, resolved] at resolved'
  obtain rfl := Except.ok.inj resolved'
  rw [(selectItems_mainPart some).1, askedItems_mainPart, key] at left
  rw [(selectItems_mainPart more).1, askedItems_mainPart, h.items] at right complete
  have within : q.carried c.config ≤ p.relations.length := by
    rw [h.relations]
    exact q.carried_le c.config
  intro same
  rw [same, right] at left
  refine render_ne_of_diverge ?_ c.dialect 0 left.symm
  rw [diverge_append]
  by_cases other : q.isSplit c.config = true
  · rw [(carried_of_split other).2.2.2, ← h.entity] at complete ⊢
    exact longer_diverges some less within complete x y
  · have unchanged : force own [] = own := rfl
    rw [(carried_of_not_split other).2, unchanged] at complete ⊢
    by_cases known : own.names.contains p.entity.primaryKey = true
    · have kept : force own [p.entity.primaryKey] = own := by
        rw [force, List.foldl_cons, List.foldl_nil, if_pos known]
      rw [kept]
      exact longer_diverges some less within complete x y
    · have added : force own [p.entity.primaryKey] =
          { own with main := own.main ++ [p.entity.primaryKey] } := by
        rw [force, List.foldl_cons, List.foldl_nil, if_neg known]
      rw [added]
      exact keyed_diverges more within complete x y

/-- Plans with the same base statement are split alike, into the same batches. -/
theorem split_alike_of_base (h : SelectsAlike p q) (pa : p.compile c = .ok a)
    (qb : q.compile c = .ok b) (base : a.query.base.sql = b.query.base.sql) :
    p.isSplit c.config = q.isSplit c.config ∧
      (p.isSplit c.config = true → p.laterBatches c.config = q.laterBatches c.config) := by
  by_cases split : p.isSplit c.config = true <;> by_cases other : q.isSplit c.config = true
  · obtain ⟨-, -, limit, -⟩ := carried_of_split split
    obtain ⟨-, -, otherLimit, -⟩ := carried_of_split other
    have carried : p.carried c.config = q.carried c.config := by
      by_contra different
      obtain less | greater := Nat.lt_or_gt_of_ne different
      · exact base_ne_of_lt h pa qb split less base
      · exact base_ne_of_lt h.symm qb pa other greater base.symm
    refine ⟨split.trans other.symm, fun _ => ?_⟩
    rw [laterBatches, laterBatches, batches, batches, ← limit, ← otherLimit, carried, h.relations]
  · exact absurd base (base_ne_of_lt h pa qb split (carried_lt h split other))
  · exact absurd base.symm (base_ne_of_lt h.symm qb pa other (carried_lt h.symm other split))
  · exact ⟨by simp [split, other], fun is => absurd is split⟩

/-- Plans that select the same and have the same base statement are compiled to the same. -/
theorem compile_eq_of_base (h : SelectsAlike p q) (pa : p.compile c = .ok a)
    (qb : q.compile c = .ok b) (base : a.query.base = b.query.base) : a = b := by
  obtain ⟨same, batches⟩ := split_alike_of_base h pa qb (congrArg Statement.sql base)
  obtain ⟨layout, subqueries, left⟩ := compile_eq_ok_iff.mp pa
  obtain ⟨layout', subqueries', right⟩ := compile_eq_ok_iff.mp qb
  rw [← same] at right
  have queries : a.query = b.query := by
    split at left
    · rename_i split
      rw [if_pos split] at right
      obtain ⟨s, written, left⟩ := left
      obtain ⟨t, written', right⟩ := right
      obtain ⟨-, later, key⟩ := split_eq_ok_iff.mp written
      obtain ⟨-, later', key'⟩ := split_eq_ok_iff.mp written'
      have followUps := mapM_eq_ok_iff.mpr later
      rw [batches split, funext h.followUp, mapM_eq_ok_iff.mpr later'] at followUps
      rw [left, right] at base ⊢
      cases s
      cases t
      have keys := key.trans ((congrArg Entity.primaryKey h.entity).trans key'.symm)
      simp only [CompiledQuery.split.injEq, Split.mk.injEq]
      exact ⟨base, (Except.ok.inj followUps).symm, keys⟩
    · rename_i single
      rw [if_neg single] at right
      obtain ⟨s, -, left⟩ := left
      obtain ⟨t, -, right⟩ := right
      rw [left, right] at base ⊢
      exact congrArg CompiledQuery.single base
  have layouts : a.layout = b.layout := by
    rw [h.layout, layout'] at layout
    exact (Except.ok.inj layout).symm
  have counted : a.subqueries = b.subqueries := by
    rw [subqueries, subqueries', Plan.subqueries, Plan.subqueries, h.relations, h.counts,
      h.aggregates]
  cases a
  cases b
  rw [CompiledPlan.mk.injEq]
  exact ⟨queries, layouts, counted⟩

end Recovered

end Plan
end EagerLoad
