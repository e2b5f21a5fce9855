import EagerLoad.Proofs.Filter.Worded
import EagerLoad.Proofs.Relation.Keyed

/-! # The tests of subqueries

Every subquery of a relation holds one WHERE of its own, whose tests are the tie to the owner, the
owner's class, the test that a related row is not deleted, and the filter or search in parentheses. -/
namespace EagerLoad

open Sql Sql.Draft

variable {d : Dialect} {fresh : Bool}

theorem Localization.join_worded (l : Localization)
    (ownerAlias ownerKey satelliteAlias locale : String) :
    Draft.Worded d ['W'] false (l.join ownerAlias ownerKey satelliteAlias locale) false := by
  have column (fresh : Bool) (table name : String) :
      Draft.Worded d ['W'] fresh (qualified table name) false := .qualified (by decide) table name
  have tables : Draft.Worded d ['W'] false [Step.text " LEFT JOIN ", .name l.satellite, Step.text " AS ",
      .name satelliteAlias, Step.text " ON "] true :=
    .spaced (by decide) (.name (by decide) _ (.spaced (by decide)
      (.name (by decide) _ (.spaced (by decide) .nil))))
  refine (((tables.append (column true _ _)).followed ?_).followed ?_).followed ?_
  · exact .spaced (by decide) (column true satelliteAlias l.foreignKey)
  · exact .spaced (by decide) (column true satelliteAlias l.localeColumn)
  · exact .spaced (by decide) (.bind (by decide) _ .nil)

namespace Source

variable (s : Source) (base : Entity)

theorem tableAs_worded {keyword : String} (known : Sql.Worded ['W'] fresh keyword.toList true)
    (table name : String) : Draft.Worded d ['W'] fresh (tableAs keyword table name) false :=
  .spaced known (.name (by decide) table (.spaced (by decide) (.name (by decide) name .nil)))

theorem tables_worded : Draft.Worded d ['W'] fresh s.tables false := by
  have first : Sql.Worded ['W'] fresh " FROM ".toList true := by cases fresh <;> decide
  have linked (keyword : String) (known : Sql.Worded ['W'] false keyword.toList true)
      (table name : String) :
      Draft.Worded d ['W'] false (.text keyword :: qualified table name) false :=
    .spaced known (.qualified (by decide) table name)
  unfold tables
  split
  · exact (((tableAs_worded first _ _).append (tableAs_worded (by decide) _ _)).append
      (linked " ON " (by decide) _ _)).append (linked " = " (by decide) _ _)
  · exact (((tableAs_worded first _ _).append (tableAs_worded (by decide) _ _)).append
      (linked " ON " (by decide) _ _)).append (linked " = " (by decide) _ _)
  · exact tableAs_worded first _ _

theorem fromClause_worded (locale : Option String) :
    Draft.Worded d ['W'] fresh (s.fromClause locale) false := by
  refine s.tables_worded.append ?_
  split
  · exact Localization.join_worded _ _ _ _ _
  · exact .nil

/-- The tests of the rows of a relation: the tie to their owner, the owner's class, and whether they
are not deleted. -/
def tests (link : Link) : List Draft :=
  [s.link link] ++
    (match s.morphTest base with
      | some (table, column, value) => [qualified table column ++ [Step.text " = ", .bind (.text value)]]
      | none => []) ++
    (if s.related.softDeletes then [qualified s.relatedAlias "deleted_at" ++ [Step.text " IS NULL"]]
    else [])

/-- The filter of a request as one test in parentheses, if it has conditions. -/
def filterTests (filter : Option Filter) : List Draft :=
  match filter with
  | some f =>
    if f.hasConditions then [Step.text "(" :: f.conditions s.qualifier ++ [Step.text ")"]] else []
  | none => []

end Source

namespace Source

variable (s : Source) (base : Entity)

theorem text_scope (link : Link) :
    (s.scope base link).text d = joined ((s.tests base link).map (Draft.text d)) := by
  rw [tests, List.singleton_append, List.cons_append, List.map_cons, joined_eq, scope]
  simp only [text_append, List.map_append, List.flatMap_append, List.append_assoc]
  refine congr (congrArg List.append rfl) (congr (congrArg List.append ?_) ?_)
  · cases s.morphTest base with
    | none => simp
    | some m => simp [Step.sql]
  · cases s.related.softDeletes <;> simp [Step.sql]

/-- A body is its tables and a WHERE with its tests. -/
theorem text_body (locale : Option String) (filter : Option Filter) (link : Link) :
    (s.body locale base filter link).text d = (s.fromClause locale).text d ++
      whereText ((s.tests base link ++ s.filterTests filter).map (Draft.text d)) := by
  have some : (s.tests base link).map (Draft.text d) ≠ [] := by simp [tests]
  rw [List.map_append, whereText_append some, whereText, if_neg some]
  unfold body
  simp only [text_append, text_cons, text_scope, List.append_assoc, Step.sql]
  congr 3
  unfold filterTests
  cases filter with
  | none => simp
  | some f => by_cases has : f.hasConditions <;> simp [has, Step.sql]

/-- No test of a relation is taken apart by a keyword. -/
theorem tests_worded (link : Link) :
    ∀ test ∈ s.tests base link, Draft.Worded d testStarts true test false := by
  have column (table name : String) : Draft.Worded d testStarts true (qualified table name) false :=
    .qualified (by decide) table name
  intro test found
  unfold tests at found
  obtain found | found := List.mem_append.mp found
  · obtain tie | owners := List.mem_append.mp found
    · obtain rfl := List.mem_singleton.mp tie
      unfold Source.link
      split
      · exact (column _ _).append (.spaced (by decide) (.qualified (by decide) _ _))
      · exact .word (by decide) .nil
      · rw [List.append_assoc]
        exact (column _ _).append
          (.enclosed 0 (by decide) (bindList_balanced _) (by decide) .nil)
    · cases kind : s.morphTest base with
      | none => exact absurd owners (by simp [kind])
      | some m =>
        rw [kind] at owners
        obtain rfl := List.mem_singleton.mp owners
        exact (column _ _).append (.spaced (by decide) (.bind (by decide) _ .nil))
  · split at found
    · obtain rfl := List.mem_singleton.mp found
      exact (column _ _).append (.word (by decide) .nil)
    · exact absurd found (by simp)

/-- To note that a localization was looked up writes nothing. -/
theorem text_andThen {ctx : Context} {name : String} {localized : Bool} {s : Source}
    (resolved : resolve ctx base name localized = .ok s) (next : Source → Draft) :
    (andThen ctx base name localized next).text d = (next s).text d := by
  unfold andThen
  rw [resolved, Draft.andThen, text_append]
  split <;> rfl

theorem complete_of_andThen {ctx : Context} {name : String} {localized : Bool} {s : Source}
    (resolved : resolve ctx base name localized = .ok s) {next : Source → Draft}
    (complete : (andThen ctx base name localized next).failure? = none) :
    (next s).failure? = none := by
  obtain ⟨found, same, complete⟩ := failure?_andThen.mp complete
  obtain rfl := Except.ok.inj (resolved.symm.trans same)
  exact complete

end Source

namespace RelationRequest

variable {r : RelationRequest} {s : Source} {next : Columns → Draft}

private theorem projectionNotices_silent (r : RelationRequest) :
    failure? (r.projectionNotices.map .notice) = none ∧
      Draft.text d (r.projectionNotices.map .notice) = [] := by
  unfold projectionNotices
  split
  · split <;> exact ⟨rfl, rfl⟩
  · exact ⟨rfl, rfl⟩

theorem failure?_withProjection : (r.withProjection s next).failure? = none ↔
    ∃ columns, r.projection s = .ok columns ∧ (next columns).failure? = none := by
  unfold withProjection
  rw [failure?_append, failure?_andThen]
  exact and_iff_right (projectionNotices_silent (d := .sqlite) r).1

theorem text_withProjection {columns : Columns} (projected : r.projection s = .ok columns) :
    (r.withProjection s next).text d = (next columns).text d := by
  unfold withProjection
  rw [text_append, (projectionNotices_silent r).2, projected]
  rfl

end RelationRequest

/-- Conditions without raw texts are one test if they stand in parentheses. -/
theorem Filter.test_worded (q : Qualifier) (f : Filter) (free : f.raws = []) :
    Draft.Worded d testStarts true (Step.text "(" :: f.conditions q ++ [Step.text ")"]) false :=
  .enclosed 0 (by decide) (clausesDraft_balanced q f.clauses free) (by decide) .nil

namespace Source

variable (s : Source) (base : Entity)

theorem filterTests_worded {filter : Option Filter} (free : rawsOf filter = []) :
    ∀ test ∈ s.filterTests filter, Draft.Worded d testStarts true test false := by
  intro test found
  unfold filterTests at found
  cases filter with
  | none => exact absurd found (by simp)
  | some f =>
    dsimp only at found
    split at found
    · obtain rfl := List.mem_singleton.mp found
      exact f.test_worded s.qualifier free
    · exact absurd found (by simp)

/-- The tests of a body without faults have none. -/
theorem tests_complete {locale : Option String} {filter : Option Filter} {link : Link}
    (complete : failure? (s.body locale base filter link) = none) :
    ∀ test ∈ s.tests base link ++ s.filterTests filter, failure? test = none := by
  unfold body scope at complete
  simp only [failure?_append, failure?_cons] at complete
  obtain ⟨⟨-, -, ⟨tie, owners⟩, alive⟩, conditions⟩ := complete
  intro test found
  simp only [tests, List.mem_append, List.mem_singleton] at found
  obtain ((rfl | found) | found) | found := found
  · exact tie
  · cases kind : s.morphTest base with
    | none => exact absurd found (by simp [kind])
    | some m =>
      rw [kind] at found owners
      obtain rfl := List.mem_singleton.mp found
      simpa [Step.failure?] using owners
  · split at found
    · rename_i soft
      rw [if_pos soft] at alive
      obtain rfl := List.mem_singleton.mp found
      simpa [Step.failure?] using alive
    · exact absurd found (by simp)
  · unfold filterTests at found
    cases filter with
    | none => exact absurd found (by simp)
    | some f =>
      dsimp only at found conditions
      split at found
      · rename_i has
        rw [if_pos has] at conditions
        obtain rfl := List.mem_singleton.mp found
        simpa [Step.failure?] using conditions
      · exact absurd found (by simp)

/-- A statement that reads from a source tests what the source tests, and nothing but what is added to
it. -/
theorem guarded {locale : Option String} {link : Link} {extra : List Draft} {front back : List Char}
    {ends : Bool} (begins : Sql.Worded ['W'] true front ends)
    (tables : failure? (s.fromClause locale) = none)
    (complete : ∀ test ∈ s.tests base link ++ extra, failure? test = none)
    (worded : ∀ test ∈ extra, Draft.Worded d testStarts true test false)
    (goesOn : Sql.Worded ['W'] false back false) (last : Ends back) :
    Sql.Guarded ((s.tests base link ++ extra).map (Draft.text d))
      (front ++ ((s.fromClause locale).text d ++
        whereText ((s.tests base link ++ extra).map (Draft.text d))) ++ back) := by
  refine ⟨front ++ (s.fromClause locale).text d, back, by simp, ?_, ?_, last, goesOn⟩
  · exact begins.append (s.fromClause_worded locale tables)
  · intro t found
    obtain ⟨test, known, rfl⟩ := List.mem_map.mp found
    have spoken : Draft.Worded d testStarts true test false :=
      (List.mem_append.mp known).elim (s.tests_worded base link test) (worded test)
    exact spoken (complete test known)

theorem fromClause_complete {locale : Option String} {filter : Option Filter} {link : Link}
    (complete : failure? (s.body locale base filter link) = none) :
    failure? (s.fromClause locale) = none := by
  unfold body at complete
  simp only [failure?_append, failure?_cons] at complete
  exact complete.1.1

/-- A statement with the body of a source tests what the source tests, and the filter. -/
theorem body_guarded (locale : Option String) {filter : Option Filter} (link : Link)
    (free : rawsOf filter = []) {front back : Draft} {ends : Bool}
    (begins : Draft.Worded d ['W'] true front ends)
    (goesOn : Draft.Worded d ['W'] false back false) (last : Ends (back.text d)) :
    Draft.Guarded d (s.tests base link ++ s.filterTests filter)
      (front ++ s.body locale base filter link ++ back) := by
  intro complete
  rw [failure?_append, failure?_append] at complete
  obtain ⟨⟨first, inner⟩, rest⟩ := complete
  rw [text_append, text_append, text_body]
  exact s.guarded base (begins first) (s.fromClause_complete base inner)
    (s.tests_complete base inner) (s.filterTests_worded free) (goesOn rest) last

end Source

/-- The first characters that no word of a select list before FROM has. -/
def selectStarts : List Char := ['W', '(']

namespace Columns

theorem pair_balanced (source column : String) : Draft.Balanced d (pair source column) := by
  intro complete
  obtain ⟨-, -, -, named⟩ : (Step.text "'").failure? = none ∧ (Step.text column).failure? = none ∧
      (Step.text "', ").failure? = none ∧ failure? (qualified source column) = none := by
    simpa [pair, Step.failure?] using complete
  have valid : Identifier.fault? column = none := by
    have checked : (Step.name column).failure? = none := by
      simpa [qualified, Step.failure?] using ((failure?_cons _ _).mp named).2
    simpa [Step.failure?] using checked
  have source : Draft.Worded d [] true (qualified source column) false :=
    .qualified (by decide) source column
  have comma : Sql.Balanced ", ".toList := by decide
  have all := balanced_append (balanced_literal valid)
    (balanced_append comma (source named).balanced)
  simpa [pair, Step.sql] using all

theorem objectFunction_worded (d : Dialect) :
    Sql.Worded selectStarts true d.objectFunction.toList false := by
  have upper : Sql.Worded selectStarts true "JSON_OBJECT".toList false := by decide
  cases d with
  | postgresql => decide
  | sqlite => decide
  | mysql => exact upper
  | mariadb => exact upper

theorem object_worded (c : Columns) (e : Dialect) (mainAlias satelliteAlias : String) :
    Draft.Worded d selectStarts true (c.object e mainAlias satelliteAlias) false := by
  refine .word (objectFunction_worded e) (.enclosed 0 (by decide) ?_ (by decide) .nil)
  refine Draft.Balanced.separated (by decide) fun draft found => ?_
  obtain found | found := List.mem_append.mp found <;> obtain ⟨column, -, rfl⟩ := List.mem_map.mp found
  · exact pair_balanced mainAlias column
  · exact pair_balanced satelliteAlias column

theorem flatObject_worded (c : Columns) (e : Dialect) (source : String) :
    Draft.Worded d selectStarts true (c.flatObject e source) false := by
  refine .word (objectFunction_worded e) (.enclosed 0 (by decide) ?_ (by decide) .nil)
  refine Draft.Balanced.separated (by decide) fun draft found => ?_
  obtain ⟨column, -, rfl⟩ := List.mem_map.mp found
  exact pair_balanced source column

theorem items_worded (c : Columns) (mainAlias satelliteAlias : String) :
    ∀ draft ∈ c.items mainAlias satelliteAlias, ∀ fresh, Draft.Worded d ['W'] fresh draft false := by
  intro draft found fresh
  rw [items, List.mem_append] at found
  obtain found | found := found <;> obtain ⟨column, -, rfl⟩ := List.mem_map.mp found
  · exact .qualified (by decide) mainAlias column
  · exact Draft.Worded.followed (.qualified (by decide) satelliteAlias column)
      (.spaced (by decide) (.name (by decide) column .nil))

theorem items_ne_nil {c : Columns} (some : c.isEmpty = false) (mainAlias satelliteAlias : String) :
    c.items mainAlias satelliteAlias ≠ [] := by
  intro none
  rw [items, List.append_eq_nil_iff, List.map_eq_nil_iff, List.map_eq_nil_iff] at none
  simp [isEmpty, none.1, none.2] at some

end Columns

theorem Source.orderClause_worded (s : Source) (terms : List OrderTerm) :
    Draft.Worded d ['W'] false (s.orderClause terms) false := by
  unfold orderClause
  split
  · exact .nil
  · rename_i some
    exact .spaced (by decide) (orderDraft_worded _ (by simpa using some))

theorem Source.orderClause_ends (s : Source) (terms : List OrderTerm) :
    Ends ((s.orderClause terms).text d) := by
  unfold orderClause
  split
  · exact .inl rfl
  · exact ends_text "ORDER" "BY " (by decide) (by decide) _

namespace Subquery

/-- A word opens an array aggregate, with the function's own parentheses, and another closes it. -/
theorem arrayAggregate_enclosed (d : Dialect) : ∃ depth,
    readOn selectStarts .plain 0 true d.arrayAggregate.1.toList = some (.plain, depth + 1, false) ∧
      readOn selectStarts .plain (depth + 1) false d.arrayAggregate.2.toList =
        some (.plain, 0, false) := by
  unfold Dialect.arrayAggregate
  split
  · exact ⟨1, by decide, by decide⟩
  · exact ⟨1, by decide, by decide⟩
  · split
    · exact ⟨1, by decide, by decide⟩
    · exact ⟨2, by decide, by decide⟩

theorem textCast_worded (d : Dialect) : Sql.Worded selectStarts false d.textCast.toList false := by
  have none : Sql.Worded selectStarts false "".toList false := by decide
  cases d with
  | postgresql => decide
  | sqlite => exact none
  | mysql => exact none
  | mariadb => exact none

/-- An array aggregate is one word, whatever order it has. -/
theorem arrayOf_worded (e : Dialect) {row order : Draft} (rows : Draft.Balanced d row)
    (ordered : Draft.Balanced d order) :
    Draft.Worded d selectStarts true (arrayOf e row order) false := by
  obtain ⟨depth, opens, close⟩ := arrayAggregate_enclosed e
  have inner : Draft.Balanced d
      (row ++ if e.ordersAggregate && !order.isEmpty then Step.text " ORDER BY " :: order else []) := by
    refine rows.append ?_
    split
    · intro complete
      rw [failure?_cons] at complete
      rw [text_cons]
      have keyword : Sql.Balanced " ORDER BY ".toList := by decide
      exact balanced_append keyword (ordered complete.2)
    · exact fun _ => rfl
  have all := Draft.Worded.enclosed depth opens inner close (.word (textCast_worded e) .nil)
  unfold arrayOf
  simpa using all

end Subquery

namespace Subquery

section Bodies

variable (ctx : Context) (base : Entity) (s : Source) (columns : Columns) {filter : Option Filter}
  (link : Link) (free : rawsOf filter = [])
include free

/-- The statement of one related row. -/
theorem single_guarded : Draft.Guarded d (s.tests base link ++ s.filterTests filter)
    (single ctx base s columns filter link) := by
  have front : Draft.Worded d ['W'] true (Step.text "SELECT " ::
      columns.object ctx.dialect s.relatedAlias s.satelliteAlias ++ [Step.text ctx.dialect.textCast])
      false :=
    Draft.Worded.followed (.spaced (by decide) ((columns.object_worded _ _ _).mono (by decide)))
      (.word ((textCast_worded _).mono (by decide)) .nil)
  have back : Draft.Worded d ['W'] false
      (s.orderClause (orderOf filter) ++ [Step.text " LIMIT 1"]) false :=
    (s.orderClause_worded _).append (.word (by decide) .nil)
  have ends : Ends (Draft.text d (s.orderClause (orderOf filter) ++ [Step.text " LIMIT 1"])) := by
    rw [text_append]
    exact (s.orderClause_ends _).append (.inr ⟨"LIMIT".toList, by decide, ['1'], by simp [Step.sql]⟩)
  have shape : single ctx base s columns filter link =
      (Step.text "SELECT " :: columns.object ctx.dialect s.relatedAlias s.satelliteAlias ++
        [Step.text ctx.dialect.textCast]) ++ s.body ctx.locale base filter link ++
        (s.orderClause (orderOf filter) ++ [Step.text " LIMIT 1"]) := by
    simp [single]
  rw [shape]
  exact s.body_guarded base ctx.locale link free front back ends

/-- The statement of an array aggregated from the related rows themselves. -/
theorem plainCollection_guarded : Draft.Guarded d (s.tests base link ++ s.filterTests filter)
    (plainCollection ctx base s columns filter link) := by
  have front : Draft.Worded d ['W'] true (Step.text "SELECT " ::
      arrayOf ctx.dialect (columns.object ctx.dialect s.relatedAlias s.satelliteAlias)
        (orderDraft s.qualifier (orderOf filter))) false :=
    .spaced (by decide) ((arrayOf_worded ctx.dialect (columns.object_worded _ _ _).balanced
      (orderDraft_balanced _ _)).mono (by decide))
  have all := s.body_guarded base ctx.locale link free front .nil (.inl rfl)
  rwa [List.append_nil] at all

omit free in
def limitDraft (filter : Option Filter) : Draft :=
  match limitOf filter with
  | some n => [Step.text (" LIMIT " ++ toString n)]
  | none => []

omit free in
/-- The rows that an array is aggregated from if they have to be ordered or limited first. -/
def derivedRows (filter : Option Filter) : Draft :=
  Step.text "SELECT " :: columns.selectList s.relatedAlias s.satelliteAlias ++
    s.body ctx.locale base filter link ++ (s.orderClause (orderOf filter) ++ limitDraft filter)

theorem derivedRows_guarded : Draft.Guarded d (s.tests base link ++ s.filterTests filter)
    (derivedRows ctx base s columns link filter) := by
  obtain ⟨ends, front⟩ : ∃ ends, Draft.Worded d ['W'] true
      (Step.text "SELECT " :: columns.selectList s.relatedAlias s.satelliteAlias) ends := by
    cases empty : columns.isEmpty with
    | true =>
      refine ⟨true, .spaced (by decide) ?_⟩
      simp only [Columns.isEmpty, Bool.and_eq_true, List.isEmpty_iff] at empty
      rw [Columns.selectList, Columns.items, empty.1, empty.2]
      exact .nil
    | false => exact ⟨false, .spaced (by decide) (.separated (Columns.items_ne_nil empty _ _)
        (by decide) (columns.items_worded _ _))⟩
  have limit : Draft.Worded d ['W'] false (limitDraft filter) false ∧
      Ends ((limitDraft filter).text d) := by
    unfold limitDraft
    cases limitOf filter with
    | none => exact ⟨.nil, .inl rfl⟩
    | some n =>
      have limited : Sql.Worded ['W'] false (" LIMIT " ++ toString n).toList false ∧
        Ends (" LIMIT " ++ toString n).toList := worded_limitOffset d (some n) none
      have text : Draft.text d [Step.text (" LIMIT " ++ toString n)] =
          (" LIMIT " ++ toString n).toList := by simp [Step.sql]
      dsimp only
      rw [text]
      exact ⟨.word limited.1 .nil, limited.2⟩
  refine s.body_guarded base ctx.locale link free front ((s.orderClause_worded _).append limit.1) ?_
  rw [text_append]
  exact (s.orderClause_ends _).append limit.2

variable (filter) in
omit free in
/-- An aggregate over a derived table selects from the rows in parentheses. -/
theorem derivedCollection_text : ∃ aggregate, Draft.Worded d selectStarts true aggregate false ∧
    ((derivedCollection ctx base s columns filter link).failure? = none →
      aggregate.failure? = none ∧ (derivedRows ctx base s columns link filter).failure? = none ∧
        failure? [Step.text " AS ", .name s.rowsAlias] = none) ∧
    (derivedCollection ctx base s columns filter link).text d = aggregate.text d ++ [' '] ++
      '(' :: ((derivedRows ctx base s columns link filter).text d ++
        ')' :: Draft.text d [Step.text " AS ", .name s.rowsAlias]) := by
  let order := (projectedOrder (orderOf filter) columns).elim []
    (orderDraft (Qualifier.ofTable s.rowsAlias))
  have ordered : Draft.Balanced d order := by
    unfold order
    cases projectedOrder (orderOf filter) columns with
    | none => exact fun _ => rfl
    | some terms => exact orderDraft_balanced _ _
  let array := arrayOf ctx.dialect (columns.flatObject ctx.dialect s.rowsAlias) order
  refine ⟨Step.text "SELECT " :: (array ++ [Step.text " FROM"]), ?_, ?_, ?_⟩
  · exact .spaced (by decide) ((arrayOf_worded ctx.dialect (columns.flatObject_worded _ _).balanced
      ordered).followed (.word (by decide) .nil))
  · intro complete
    simp only [derivedCollection, derivedRows, limitDraft, failure?_cons, failure?_append] at complete ⊢
    obtain ⟨⟨⟨⟨⟨⟨-, rows⟩, -, list⟩, body⟩, clause⟩, limit⟩, -, name, -⟩ := complete
    have array : array.failure? = none := by
      unfold array order
      cases found : projectedOrder (orderOf filter) columns <;> rw [found] at rows <;> exact rows
    exact ⟨⟨rfl, array, rfl, rfl⟩, ⟨⟨⟨rfl, list⟩, body⟩, clause, limit⟩, rfl, name, rfl⟩
  · have opening : " FROM (SELECT ".toList = " FROM".toList ++ [' '] ++ '(' :: "SELECT ".toList := by
      decide
    have closing : ") AS ".toList = ')' :: " AS ".toList := by decide
    simp only [derivedCollection, derivedRows, limitDraft, text_cons, text_append, text_nil, Step.sql,
      opening, closing, List.append_assoc, List.cons_append, List.append_nil, List.nil_append]
    unfold array order
    cases projectedOrder (orderOf filter) columns <;> rfl

/-- An array aggregated from a derived table has no test of its own, and the derived table has all. -/
theorem derivedCollection_scoped
    (complete : (derivedCollection ctx base s columns filter link).failure? = none) :
    Sql.Guarded [] ((derivedCollection ctx base s columns filter link).text d) ∧
      Requires (subselect ((derivedCollection ctx base s columns filter link).text d))
        ((s.tests base link ++ s.filterTests filter).map (Draft.text d)) := by
  obtain ⟨aggregate, worded, parts, text⟩ :=
    derivedCollection_text (d := d) ctx base s columns filter link
  obtain ⟨first, rows, named⟩ := parts complete
  have inner := derivedRows_guarded (d := d) ctx base s columns link free rows
  have last : Draft.Worded d ['W'] false [Step.text " AS ", .name s.rowsAlias] false :=
    .spaced (by decide) (.name (by decide) _ .nil)
  have begins : ∃ b, Draft.text d [Step.text " AS ", .name s.rowsAlias] = ' ' :: b :=
    ⟨"AS ".toList ++ Draft.text d [.name s.rowsAlias], by simp [Step.sql]⟩
  rw [text]
  constructor
  · have opens : readOn ['W'] .plain 0 false [' ', '('] = some (.plain, 0 + 1, false) := by decide
    have close : readOn ['W'] .plain (0 + 1) false [')'] = some (.plain, 0, false) := by decide
    have table := Sql.Worded.enclosed opens inner.balanced close
    have whole := ((worded first).mono (by decide : ['W'] ⊆ selectStarts)).append
      (table.append (last named))
    refine ⟨_, [], ?_, whole, by simp, .inl rfl, .nil ['W'] false⟩
    simp [whereText]
  · rw [subselect_eq (.inr ⟨_, rfl, (worded first).mono (by decide)⟩) inner.balanced (.inr begins)]
    exact inner.requires

theorem collection_scoped (complete : (collection ctx base s columns filter link).failure? = none) :
    Sql.Balanced ((collection ctx base s columns filter link).text d) ∧
      Scoped ((collection ctx base s columns filter link).text d)
        ((s.tests base link ++ s.filterTests filter).map (Draft.text d)) := by
  unfold collection at complete ⊢
  split at complete
  · rename_i plain
    have rows := plainCollection_guarded (d := d) ctx base s columns link free complete
    rw [if_pos plain]
    exact ⟨rows.balanced, .inl rows.requires⟩
  · rename_i derived
    obtain ⟨outer, inner⟩ := derivedCollection_scoped (d := d) ctx base s columns link free complete
    rw [if_neg derived]
    exact ⟨outer.balanced, .inr ⟨outer.requires, inner⟩⟩

end Bodies

section Items

variable {ctx : Context} {base : Entity} {baseAlias : String}

/-- What stands in the parentheses of an item of a select list. -/
private theorem subselect_item {inner : Draft} (h : Sql.Balanced (inner.text d)) (label : String) :
    subselect (['('] ++ Draft.text d (inner ++ [Step.text ") AS ", .name label])) = inner.text d := by
  have shape : Draft.text d [Step.text ") AS ", .name label] =
      ')' :: (' ' :: ("AS ".toList ++ Draft.text d [.name label])) := by
    simp [Step.sql]
  have found := subselect_eq (.inl rfl) h
    (.inr ⟨"AS ".toList ++ Draft.text d [.name label], rfl⟩)
  rw [text_append, shape]
  exact found

/-- Related rows are tied to the base row, and no filter goes past that. -/
theorem relation_scoped {r : RelationRequest} (free : rawsOf r.filter = []) {s : Source}
    (resolved : Source.resolve ctx base r.name true = .ok s)
    (complete : (relation ctx base baseAlias r).failure? = none) :
    Scoped (subselect ((relation ctx base baseAlias r).text d))
      ((s.tests base (.correlated baseAlias) ++ s.filterTests r.filter).map (Draft.text d)) := by
  unfold relation at complete ⊢
  obtain ⟨segments, cut, complete⟩ := failure?_andThen.mp complete
  have projected := Source.complete_of_andThen base resolved complete
  obtain ⟨columns, projection, rest⟩ := RelationRequest.failure?_withProjection.mp projected
  obtain ⟨shape, shaped, done⟩ := failure?_andThen.mp rest
  have opening : ((Step.text "(").sql d).toList = ['('] := by simp [Step.sql]
  rw [cut, andThen, Source.text_andThen base resolved,
    RelationRequest.text_withProjection projection, shaped, andThen]
  rw [List.cons_append, failure?_cons, failure?_append] at done
  rw [List.cons_append, text_cons, opening]
  cases shape with
  | one =>
    have rows := single_guarded (d := d) ctx base s columns (.correlated baseAlias) free done.2.1
    rw [subselect_item rows.balanced]
    exact .inl rows.requires
  | many =>
    obtain ⟨balanced, tested⟩ := collection_scoped (d := d) ctx base s columns
      (.correlated baseAlias) free done.2.1
    rw [subselect_item balanced]
    exact tested

/-- The rows that a count or an aggregate is taken of have a statement of their own. -/
private theorem scalar_requires {s : Source} {locale : Option String} {filter : Option Filter}
    {link : Link} {value : Draft} (free : rawsOf filter = [])
    (worded : Draft.Worded d ['W'] true value false)
    (complete : failure? (value ++ s.body locale base filter link) = none) (label : String) :
    Requires (subselect (['('] ++ Draft.text d (value ++ s.body locale base filter link ++
        [Step.text ") AS ", .name label])))
      ((s.tests base link ++ s.filterTests filter).map (Draft.text d)) := by
  have rows := s.body_guarded base locale link free worded .nil (.inl rfl)
  rw [List.append_nil] at rows
  rw [subselect_item (rows complete).balanced]
  exact (rows complete).requires

theorem count_requires {c : CountRequest} (free : rawsOf c.filter = []) {s : Source}
    (resolved : Source.resolve ctx base c.relation false = .ok s)
    (complete : (count ctx base baseAlias c).failure? = none) :
    Requires (subselect ((count ctx base baseAlias c).text d))
      ((s.tests base (.correlated baseAlias) ++ s.filterTests c.filter).map (Draft.text d)) := by
  unfold count at complete ⊢
  have done := Source.complete_of_andThen base resolved complete
  rw [failure?_append, failure?_cons] at done
  have value : Draft.Worded d ['W'] true [Step.text "SELECT COUNT(*)"] false := .word (by decide) .nil
  have whole : failure? ([Step.text "SELECT COUNT(*)"] ++
      s.body ctx.locale base c.filter (.correlated baseAlias)) = none :=
    (failure?_append _ _).mpr ⟨rfl, done.1.2⟩
  have opening : "(SELECT COUNT(*)".toList = ['('] ++ "SELECT COUNT(*)".toList := by decide
  have requires := scalar_requires free value whole c.label
  rw [Source.text_andThen base resolved]
  simpa [text_cons, text_append, Step.sql, opening] using requires

theorem aggregateCall_worded (e : Dialect) (s : Source) (a : AggregateRequest) :
    Draft.Worded d ['W'] true (aggregateCall e s a) false := by
  have called : Sql.Worded ['W'] true a.function.sql.toList false := by
    cases a.function <;> decide
  have cast : Sql.Worded ['W'] false (if a.function.isNumeric then e.numericCast else "").toList
      false := by
    have none : Sql.Worded ['W'] false "".toList false := by decide
    split
    · cases e with
      | postgresql => decide
      | sqlite => exact none
      | mysql => exact none
      | mariadb => exact none
    · exact none
  have column : Draft.Worded d [] true (qualified s.relatedAlias a.column) false :=
    .qualified (by decide) _ _
  have all : Draft.Worded d ['W'] true (Step.text a.function.sql :: Step.text "(" ::
      (qualified s.relatedAlias a.column ++
        [Step.text ")", Step.text (if a.function.isNumeric then e.numericCast else "")])) false :=
    .word called (.enclosed 0 (by decide) column.balanced (by decide) (.word cast .nil))
  simpa [aggregateCall] using all

theorem aggregate_requires {a : AggregateRequest} (free : rawsOf a.filter = []) {s : Source}
    (resolved : Source.resolve ctx base a.relation false = .ok s)
    (complete : (aggregate ctx base baseAlias a).failure? = none) :
    Requires (subselect ((aggregate ctx base baseAlias a).text d))
      ((s.tests base (.correlated baseAlias) ++ s.filterTests a.filter).map (Draft.text d)) := by
  unfold aggregate at complete ⊢
  split at complete
  · exact absurd complete (by simp [Step.failure?])
  · rename_i named
    have done := Source.complete_of_andThen base resolved complete
    rw [failure?_append, List.cons_append, failure?_cons] at done
    have value : Draft.Worded d ['W'] true (Step.text "SELECT " :: aggregateCall ctx.dialect s a) false :=
      .spaced (by decide) (aggregateCall_worded _ _ _)
    have whole : failure? (Step.text "SELECT " :: aggregateCall ctx.dialect s a ++
        s.body ctx.locale base a.filter (.correlated baseAlias)) = none := by
      rw [List.cons_append, failure?_cons]
      exact ⟨rfl, done.1.2⟩
    have opening : "(SELECT ".toList = ['('] ++ "SELECT ".toList := by decide
    have requires := scalar_requires free value whole a.label
    rw [if_neg named, Source.text_andThen base resolved]
    simpa [text_cons, text_append, Step.sql, opening] using requires

theorem searchTerms_balanced (e : Dialect) (pattern : String) {columns : List Draft}
    (h : ∀ column ∈ columns, Draft.Balanced d column) :
    ∀ term ∈ searchTerms e pattern columns, Draft.Balanced d term := by
  intro term found
  obtain ⟨column, known, rfl⟩ := List.mem_map.mp found
  have like : Sql.Worded [] true e.likeOperator.toList false := by
    have plain : Sql.Worded [] true "LIKE".toList false := by decide
    cases e with
    | postgresql => decide
    | sqlite => exact plain
    | mysql => exact plain
    | mariadb => exact plain
  have test : Draft.Worded d [] false
      [Step.text " ", Step.text e.likeOperator, Step.text " ", .bind (.text pattern)] false :=
    .spaced (by decide) (.word like (.spaced (by decide) (.bind (by decide) _ .nil)))
  exact (h column known).append test.balanced

theorem body_balanced {s : Source} {locale : Option String} {filter : Option Filter}
    (free : rawsOf filter = []) (link : Link) :
    Draft.Balanced d (s.body locale base filter link) := by
  intro complete
  have nothing : Draft.Worded d ['W'] true [] true := .nil
  have rows := s.body_guarded base locale link free nothing .nil (.inl rfl)
  rw [List.nil_append, List.append_nil] at rows
  exact (rows complete).balanced

/-- An item in parentheses with a name holds no WHERE outside of them. -/
private theorem item_worded {opening : String} {inner : Draft}
    (opens : ∀ fresh, readOn ['W'] .plain 0 fresh opening.toList = some (.plain, 1, false))
    (h : Draft.Balanced d inner) (label : String) (fresh : Bool) :
    Draft.Worded d ['W'] fresh (Step.text opening :: inner ++ [Step.text ") AS ", .name label])
      false := by
  have named : Draft.Worded d ['W'] true [.name label] false := .name (by decide) label .nil
  exact .enclosed 0 (opens fresh) h (by decide) named

theorem relation_worded {r : RelationRequest} (free : rawsOf r.filter = []) (fresh : Bool) :
    Draft.Worded d ['W'] fresh (relation ctx base baseAlias r) false := by
  intro complete
  unfold relation at complete ⊢
  obtain ⟨segments, cut, complete⟩ := failure?_andThen.mp complete
  obtain ⟨s, resolved, projected⟩ := Source.failure?_andThen.mp complete
  obtain ⟨columns, projection, rest⟩ := RelationRequest.failure?_withProjection.mp projected
  obtain ⟨shape, shaped, done⟩ := failure?_andThen.mp rest
  rw [cut, andThen, Source.text_andThen base resolved,
    RelationRequest.text_withProjection projection, shaped, andThen]
  refine item_worded (by decide) ?_ r.label fresh done
  cases shape with
  | one => exact fun rows => (single_guarded ctx base s columns _ free rows).balanced
  | many => exact fun rows => (collection_scoped ctx base s columns _ free rows).1

theorem count_worded {c : CountRequest} (free : rawsOf c.filter = []) (fresh : Bool) :
    Draft.Worded d ['W'] fresh (count ctx base baseAlias c) false := by
  intro complete
  unfold count at complete ⊢
  obtain ⟨s, resolved, done⟩ := Source.failure?_andThen.mp complete
  rw [Source.text_andThen base resolved]
  exact item_worded (by decide) (body_balanced free _) c.label fresh done

theorem aggregate_worded {a : AggregateRequest} (free : rawsOf a.filter = []) (fresh : Bool) :
    Draft.Worded d ['W'] fresh (aggregate ctx base baseAlias a) false := by
  intro complete
  unfold aggregate at complete ⊢
  split at complete
  · exact absurd complete (by simp [Step.failure?])
  · rename_i named
    obtain ⟨s, resolved, done⟩ := Source.failure?_andThen.mp complete
    rw [if_neg named, Source.text_andThen base resolved]
    have call : Draft.Balanced d (aggregateCall ctx.dialect s a) :=
      (aggregateCall_worded _ _ _).balanced
    exact item_worded (by decide) (call.append (body_balanced free _)) a.label fresh done

/-- The alternatives of a search in a relation, as one test in parentheses. -/
def searchTest (e : Dialect) (s : Source) (columns : List String) (pattern : String) : Draft :=
  Step.text "(" :: separated " OR "
    (searchTerms e pattern (columns.map (qualified s.relatedAlias))) ++ [Step.text ")"]

theorem searchTest_worded (e : Dialect) (s : Source) (columns : List String) (pattern : String) :
    Draft.Worded d testStarts true (searchTest e s columns pattern) false := by
  refine .enclosed 0 (by decide) (Draft.Balanced.separated (by decide) ?_) (by decide) .nil
  refine searchTerms_balanced e pattern fun column found => ?_
  obtain ⟨name, -, rfl⟩ := List.mem_map.mp found
  have worded : Draft.Worded d [] true (qualified s.relatedAlias name) false := .qualified (by decide) _ _
  exact worded.balanced

/-- A search in a relation is a statement of its own in parentheses. -/
theorem search_text {name : String} {columns : List String} {pattern : String} {s : Source}
    (resolved : Source.resolve ctx base name false = .ok s)
    (complete : (search ctx base baseAlias name columns pattern).failure? = none) : ∃ inner,
    (search ctx base baseAlias name columns pattern).text d =
      "EXISTS".toList ++ [' '] ++ '(' :: (inner ++ ')' :: []) ∧
    Sql.Guarded ((s.tests base (.correlated baseAlias) ++
      [searchTest ctx.dialect s columns pattern]).map (Draft.text d)) inner := by
  unfold search at complete ⊢
  have done := Source.complete_of_andThen base resolved complete
  simp only [failure?_append, failure?_cons] at done
  obtain ⟨⟨⟨-, body⟩, -, terms⟩, -⟩ := done
  have tests : ∀ test ∈ s.tests base (.correlated baseAlias) ++
      [searchTest ctx.dialect s columns pattern], test.failure? = none := by
    intro test found
    obtain found | found := List.mem_append.mp found
    · exact s.tests_complete base body test (List.mem_append_left _ found)
    · obtain rfl := List.mem_singleton.mp found
      simpa [searchTest, Step.failure?] using terms
  have last : ∀ test ∈ [searchTest ctx.dialect s columns pattern],
      Draft.Worded d testStarts true test false := by
    intro test found
    obtain rfl := List.mem_singleton.mp found
    exact searchTest_worded _ _ _ _
  have first : Sql.Worded ['W'] true "SELECT 1".toList false := by decide
  have rows := s.guarded base first (s.fromClause_complete base body) tests last (.nil ['W'] false)
    (.inl rfl)
  refine ⟨_, ?_, rows⟩
  have some : (s.tests base (.correlated baseAlias)).map (Draft.text d) ≠ [] := by simp [Source.tests]
  have opening : "EXISTS (SELECT 1".toList = "EXISTS".toList ++ [' '] ++ '(' :: "SELECT 1".toList := by
    decide
  have between : " AND (".toList = " AND ".toList ++ ['('] := by decide
  have closing : "))".toList = [')'] ++ [')'] := by decide
  rw [Source.text_andThen base resolved, List.map_append, whereText_append some]
  simp only [text_append, text_cons, text_nil, s.text_body base, Source.filterTests, searchTest,
    Step.sql, opening, between, closing, List.append_nil]
  simp [Step.sql]

/-- The rows of a relation that a search finds are tied to the base row. -/
theorem search_requires {name : String} {columns : List String} {pattern : String} {s : Source}
    (resolved : Source.resolve ctx base name false = .ok s)
    (complete : (search ctx base baseAlias name columns pattern).failure? = none) :
    Requires (subselect ((search ctx base baseAlias name columns pattern).text d))
      ((s.tests base (.correlated baseAlias) ++
        [searchTest ctx.dialect s columns pattern]).map (Draft.text d)) := by
  obtain ⟨inner, text, rows⟩ := search_text (d := d) resolved complete
  rw [text, subselect_eq (.inr ⟨_, rfl, by decide⟩) rows.balanced (.inl rfl)]
  exact rows.requires

theorem search_balanced (name : String) (columns : List String) (pattern : String) :
    Draft.Balanced d (search ctx base baseAlias name columns pattern) := by
  intro complete
  obtain ⟨s, resolved, -⟩ := Source.failure?_andThen.mp complete
  obtain ⟨inner, text, rows⟩ := search_text (d := d) resolved complete
  have word : Sql.Balanced ("EXISTS".toList ++ [' ']) := by decide
  rw [text]
  exact balanced_append word (balanced_paren rows.balanced)

end Items
end Subquery

namespace Keyed

variable {ctx : Context} {base : Entity} {s : Source} (keys : List DbValue)

private theorem ownerItem_worded (s : Source) : Draft.Worded d ['W'] true (ownerItem s) false :=
  Draft.Worded.followed (.qualified (by decide) _ _) (.spaced (by decide) (.name (by decide) _ .nil))

/-- The rows of a relation that are loaded by keys are those of the keys' owners. -/
theorem relation_guarded {r : RelationRequest} (free : rawsOf r.filter = [])
    (columns : ColumnSelection) (resolved : Source.resolve ctx base r.name true = .ok s) :
    Draft.Guarded d (s.tests base (.keys keys) ++ s.filterTests r.filter)
      (relation ctx base r columns keys) := by
  unfold relation
  intro complete
  have projected := Source.complete_of_andThen base resolved complete
  obtain ⟨names, projection, done⟩ := RelationRequest.failure?_withProjection.mp projected
  rw [Source.text_andThen base resolved, RelationRequest.text_withProjection projection]
  have list : Draft.Worded d ['W'] false (if names.isEmpty then []
      else Step.text ", " :: names.selectList s.relatedAlias s.satelliteAlias) false := by
    split
    · exact .nil
    · rename_i some
      exact .spaced (by decide) (.separated
        (Columns.items_ne_nil (by simpa using some) _ _) (by decide) (names.items_worded _ _))
  have first : Draft.Worded d ['W'] true (Step.text "SELECT " :: ownerItem s ++ if names.isEmpty then []
      else Step.text ", " :: names.selectList s.relatedAlias s.satelliteAlias) false :=
    Draft.Worded.append (.spaced (by decide) (ownerItem_worded s)) list
  exact s.body_guarded base ctx.locale (.keys keys) free first (s.orderClause_worded _)
    (s.orderClause_ends _) done

private theorem grouped_guarded {value : Draft} {filter : Option Filter} (free : rawsOf filter = [])
    (worded : Draft.Worded d ['W'] true value false) :
    Draft.Guarded d (s.tests base (.keys keys) ++ s.filterTests filter)
      (grouped ctx base s value filter keys) := by
  have first : Draft.Worded d ['W'] true (Step.text "SELECT " :: ownerItem s ++ Step.text ", " :: value ++
      [Step.text " AS ", .name valueAlias]) false :=
    Draft.Worded.followed (Draft.Worded.append (.spaced (by decide) (ownerItem_worded s))
      (.spaced (by decide) worded)) (.spaced (by decide) (.name (by decide) _ .nil))
  have last : Draft.Worded d ['W'] false (Step.text " GROUP BY " :: s.owner) false :=
    .spaced (by decide) (.qualified (by decide) _ _)
  have ends : Ends (Draft.text d (Step.text " GROUP BY " :: s.owner)) :=
    ends_text "GROUP" "BY " (by decide) (by decide) _
  exact s.body_guarded base ctx.locale (.keys keys) free first last ends

theorem count_guarded {c : CountRequest} (free : rawsOf c.filter = [])
    (resolved : Source.resolve ctx base c.relation false = .ok s) :
    Draft.Guarded d (s.tests base (.keys keys) ++ s.filterTests c.filter) (count ctx base c keys) := by
  unfold count
  intro complete
  rw [Source.text_andThen base resolved]
  exact grouped_guarded keys free (.word (by decide) .nil)
    (Source.complete_of_andThen base resolved complete)

theorem aggregate_guarded {a : AggregateRequest} (free : rawsOf a.filter = [])
    (resolved : Source.resolve ctx base a.relation false = .ok s) :
    Draft.Guarded d (s.tests base (.keys keys) ++ s.filterTests a.filter)
      (aggregate ctx base a keys) := by
  unfold aggregate
  intro complete
  have done := Source.complete_of_andThen base resolved complete
  simp only [List.cons_append, List.nil_append, failure?_cons] at done
  have rows : Sql.Guarded ((s.tests base (.keys keys) ++ s.filterTests a.filter).map (text d))
      (text d (grouped ctx base s (Subquery.aggregateCall ctx.dialect s a) a.filter keys)) :=
    grouped_guarded keys free (Subquery.aggregateCall_worded ctx.dialect s a) done.2.2
  have silent : Draft.text d [.require s.relatedAlias, .require a.column] = [] := rfl
  rw [Source.text_andThen base resolved, text_append, silent, List.nil_append]
  exact rows

end Keyed
end EagerLoad
