import EagerLoad.Proofs.Relation.Cited
import EagerLoad.Relation.Keyed
import EagerLoad.Proofs.Sql.Selecting

/-! # Select lists of subqueries

Every subquery and every keyed statement selects something, with one exception: if no column of a relation can
be read, the derived table of its ordered or limited rows selects nothing. -/
namespace EagerLoad

open Sql Sql.Draft

variable {d : Dialect}

section Conditions

variable (q : Qualifier)

theorem Comparison.sql_selectless (operator : Comparison) : hasSelect operator.sql = false := by
  cases operator <;> decide

theorem OrderTerm.draft_selecting (t : OrderTerm) : Selecting d (t.draft q) := by
  refine Selecting.append (.column _ _) (.word (by decide) (.word ?_ .nil))
  cases t.direction <;> decide

theorem orderDraft_selecting (terms : List OrderTerm) : Selecting d (orderDraft q terms) := by
  refine .separated (by decide) fun draft found => ?_
  obtain ⟨term, -, rfl⟩ := List.mem_map.mp found
  exact term.draft_selecting q

mutual

theorem Condition.draft_selecting (c : Condition) : Selecting d (c.draft q) := by
  have column (name : String) : Selecting d (q.column name) := .column _ _
  have tested (name : String) (negated : Bool) :
      Selecting d ((Condition.null name negated).draft q) := by
    rw [Condition.draft]
    exact (column name).append (.word (by cases negated <;> decide) .nil)
  cases c with
  | compare name operator value =>
    obtain ⟨negated, same⟩ | same := Condition.draft_compare q name operator value
    · rw [same]
      exact tested name negated
    · rw [same]
      exact (column name).append (.word (by decide) (.word operator.sql_selectless
        (.word (by decide) (.bind _ .nil))))
  | columns left operator right =>
    rw [Condition.draft]
    have between : Selecting d [.text " ", .text operator.sql, .text " "] :=
      .word (by decide) (.word operator.sql_selectless (.word (by decide) .nil))
    exact ((column left).append between).append (column right)
  | among name bound negated =>
    cases bound with
    | nil =>
      rw [Condition.draft]
      exact .word (by cases negated <;> decide) .nil
    | cons value rest =>
      rw [Condition.draft]
      have keyword : hasSelect (if negated then " NOT IN (" else " IN (") = false := by
        cases negated <;> decide
      exact ((column name).append (.word keyword (.bindList _))).append (.word (by decide) .nil)
  | null name negated => exact tested name negated
  | between name low high =>
    rw [Condition.draft]
    exact (column name).append (.word (by decide) (.bind _ (.word (by decide) (.bind _ .nil))))
  | group clauses =>
    rw [Condition.draft]
    exact Selecting.append (.word (by decide) (clausesDraft_selecting clauses)) (.word (by decide) .nil)
  | raw sql bindings =>
    rw [Condition.draft]
    exact .word (by decide) (.other (by simp) (.word (by decide) .nil))

theorem clausesDraft_selecting (clauses : List Clause) : Selecting d (clausesDraft q clauses) := by
  cases clauses with
  | nil => exact .nil
  | cons clause rest =>
    obtain ⟨connective, condition⟩ := clause
    rw [clausesDraft]
    exact condition.draft_selecting.append (clausesTail_selecting rest)

theorem clausesTail_selecting (clauses : List Clause) : Selecting d (clausesTail q clauses) := by
  cases clauses with
  | nil => exact .nil
  | cons clause rest =>
    obtain ⟨connective, condition⟩ := clause
    rw [clausesTail]
    exact .word (by cases connective <;> decide)
      (condition.draft_selecting.append (clausesTail_selecting rest))

end

end Conditions

theorem Localization.join_selecting (l : Localization) (ownerAlias ownerKey satelliteAlias locale : String) :
    Selecting d (l.join ownerAlias ownerKey satelliteAlias locale) := by
  have tables : Selecting d [.text " LEFT JOIN ", .name l.satellite, .text " AS ",
      .name satelliteAlias, .text " ON "] :=
    .word (by decide) (.name _ (.word (by decide) (.name _ (.word (by decide) .nil))))
  refine (((tables.append (.qualified _ _)).append ?_).append ?_).append ?_
  · exact .word (by decide) (.qualified _ _)
  · exact .word (by decide) (.qualified _ _)
  · exact .word (by decide) (.bind _ .nil)

namespace Columns

variable (c : Columns)

theorem object_selecting (objects : Dialect) (mainAlias satelliteAlias : String) :
    Selecting d (c.object objects mainAlias satelliteAlias) := by
  have function : hasSelect objects.objectFunction = false := by
    cases objects <;> simp only [Dialect.objectFunction] <;> decide
  refine Selecting.append (.word function (.word (by decide) (.separated (by decide) ?_)))
    (.word (by decide) .nil)
  intro draft found
  obtain found | found := List.mem_append.mp found <;> obtain ⟨column, -, rfl⟩ := List.mem_map.mp found
  · exact .pair _ _
  · exact .pair _ _

theorem flatObject_selecting (objects : Dialect) (source : String) :
    Selecting d (c.flatObject objects source) := by
  have function : hasSelect objects.objectFunction = false := by
    cases objects <;> simp only [Dialect.objectFunction] <;> decide
  refine Selecting.append (.word function (.word (by decide) (.separated (by decide) ?_)))
    (.word (by decide) .nil)
  intro draft found
  obtain ⟨column, -, rfl⟩ := List.mem_map.mp found
  exact .pair _ _

theorem items_selecting (mainAlias satelliteAlias : String) :
    ∀ draft ∈ c.items mainAlias satelliteAlias, Selecting d draft := by
  intro draft found
  obtain found | found := List.mem_append.mp found <;> obtain ⟨column, -, rfl⟩ := List.mem_map.mp found
  · exact .qualified _ _
  · exact Selecting.append (.qualified _ _) (.word (by decide) (.name _ .nil))

theorem selectList_selecting (mainAlias satelliteAlias : String) :
    Selecting d (c.selectList mainAlias satelliteAlias) :=
  .separated (by decide) (c.items_selecting mainAlias satelliteAlias)

theorem items_beginItems (mainAlias satelliteAlias : String) :
    ∀ draft ∈ c.items mainAlias satelliteAlias, BeginsItem d (Draft.text d draft) := by
  intro draft found
  obtain found | found := List.mem_append.mp found <;> obtain ⟨column, -, rfl⟩ := List.mem_map.mp found
  · exact .name _ _
  · exact .name _ _

theorem items_eq_nil_iff (mainAlias satelliteAlias : String) :
    c.items mainAlias satelliteAlias = [] ↔ c.isEmpty = true := by
  simp [items, isEmpty]

theorem selectList_beginsItem (some : c.isEmpty = false) (mainAlias satelliteAlias : String) :
    BeginsItem d (Draft.text d (c.selectList mainAlias satelliteAlias)) := by
  refine .separated (fun none => ?_) (c.items_beginItems mainAlias satelliteAlias) _
  rw [items_eq_nil_iff, some] at none
  exact Bool.false_ne_true none

end Columns

namespace Source

variable (s : Source) (base : Entity)

theorem tableAs_selecting {keyword : String} (plain : hasSelect keyword = false) (table name : String) :
    Selecting d (tableAs keyword table name) :=
  .word plain (.name _ (.word (by decide) (.name _ .nil)))

theorem tables_selecting : Selecting d s.tables := by
  have equal (a b x y : String) :
      Selecting d (.text " ON " :: qualified a b ++ .text " = " :: qualified x y) :=
    Selecting.append (.word (by decide) (.qualified _ _)) (.word (by decide) (.qualified _ _))
  unfold tables
  split
  · rw [List.append_assoc]
    exact ((tableAs_selecting (by decide) _ _).append (tableAs_selecting (by decide) _ _)).append (equal _ _ _ _)
  · rw [List.append_assoc]
    exact ((tableAs_selecting (by decide) _ _).append (tableAs_selecting (by decide) _ _)).append (equal _ _ _ _)
  · exact tableAs_selecting (by decide) _ _

theorem fromClause_selecting (locale : Option String) : Selecting d (s.fromClause locale) := by
  refine s.tables_selecting.append ?_
  split
  · exact Localization.join_selecting _ _ _ _ _
  · exact .nil

theorem link_selecting (link : Link) : Selecting d (s.link link) := by
  unfold Source.link
  split
  · exact Selecting.append (.qualified _ _) (.word (by decide) (.qualified _ _))
  · exact .word (by decide) .nil
  · exact (Selecting.append (.qualified _ _) (.word (by decide) (.bindList _))).append (.word (by decide) .nil)

theorem scope_selecting (link : Link) : Selecting d (s.scope base link) := by
  refine ((s.link_selecting link).append ?_).append ?_
  · split
    · exact Selecting.append (.word (by decide) (.qualified _ _)) (.word (by decide) (.bind _ .nil))
    · exact .nil
  · split
    · exact Selecting.append (.word (by decide) (.qualified _ _)) (.word (by decide) .nil)
    · exact .nil

theorem body_selecting (locale : Option String) (filter : Option Filter) (link : Link) :
    Selecting d (s.body locale base filter link) := by
  refine ((s.fromClause_selecting locale).append (.word (by decide) (s.scope_selecting base link))).append ?_
  cases filter with
  | none => exact .nil
  | some f =>
    dsimp only
    split
    · exact Selecting.append (.word (by decide) (clausesDraft_selecting _ _)) (.word (by decide) .nil)
    · exact .nil

/-- A body begins with the keyword of its tables. -/
theorem body_begins (locale : Option String) (filter : Option Filter) (link : Link) :
    ∃ rest, s.body locale base filter link = .text " FROM " :: rest := by
  have tables : ∃ rest, s.tables = .text " FROM " :: rest := by
    unfold tables
    split <;> exact ⟨_, rfl⟩
  obtain ⟨rest, begins⟩ := tables
  unfold Source.body Source.fromClause
  rw [begins]
  exact ⟨_, rfl⟩

theorem orderClause_selecting (terms : List OrderTerm) : Selecting d (s.orderClause terms) := by
  unfold orderClause
  split
  · exact .nil
  · exact .word (by decide) (orderDraft_selecting _ _)

theorem andThen_selecting {ctx : Context} {name : String} {localized : Bool} {next : Source → Draft}
    (each : ∀ s, resolve ctx base name localized = .ok s → Selecting d (next s)) :
    Selecting d (andThen ctx base name localized next) := by
  refine .andThen fun s resolved => Selecting.append (.quiet ?_) (each s resolved)
  split <;> simp

end Source

namespace Subquery

variable (ctx : Context) (base : Entity)

theorem arrayOf_selecting (arrays : Dialect) {row order : Draft} (hr : Selecting d row)
    (ho : Selecting d order) : Selecting d (arrayOf arrays row order) := by
  have aggregate : hasSelect arrays.arrayAggregate.1 = false ∧ hasSelect arrays.arrayAggregate.2 = false := by
    unfold Dialect.arrayAggregate
    split
    · decide
    · decide
    · split <;> decide
  have cast : hasSelect arrays.textCast = false := by
    cases arrays <;> simp only [Dialect.textCast] <;> decide
  refine ((Selecting.append (.word aggregate.1 .nil) hr).append ?_).append
    (.word aggregate.2 (.word cast .nil))
  split
  · exact .word (by decide) ho
  · exact .nil

/-- Whether a collection is aggregated from a derived table. -/
def derives (filter : Option Filter) : Bool :=
  !((limitOf filter).isNone && ((orderOf filter).isEmpty || ctx.dialect.ordersAggregate))

section Rows

variable (s : Source) (columns : Columns) (filter : Option Filter) (link : Link)

theorem single_selecting : Selecting ctx.dialect (single ctx base s columns filter link) := by
  have selected : Selecting ctx.dialect (.text "SELECT " ::
      columns.object ctx.dialect s.relatedAlias s.satelliteAlias) := by
    refine .opened (by decide) (fun _ => ?_) (columns.object_selecting _ _ _)
    have known : ctx.dialect.objectFunction.toList ++ ['('] ∈ itemOpenings ctx.dialect := by
      simp [itemOpenings]
    simpa [Columns.object, Step.sql] using BeginsItem.of_mem known _
  have cast : hasSelect ctx.dialect.textCast = false := by
    cases ctx.dialect <;> simp only [Dialect.textCast] <;> decide
  exact ((selected.append (.word cast (s.body_selecting base _ _ _))).append (s.orderClause_selecting _)).append
    (.word (by decide) .nil)

theorem arrayOf_selected {row order : Draft} (hr : Selecting ctx.dialect row)
    (ho : Selecting ctx.dialect order) :
    Selecting ctx.dialect (.text "SELECT " :: arrayOf ctx.dialect row order) := by
  refine .opened (by decide) (fun _ => ?_) (arrayOf_selecting _ hr ho)
  have known : ctx.dialect.arrayAggregate.1.toList ∈ itemOpenings ctx.dialect := by simp [itemOpenings]
  simpa [arrayOf, Step.sql] using BeginsItem.of_mem known _

theorem plainCollection_selecting :
    Selecting ctx.dialect (plainCollection ctx base s columns filter link) :=
  (arrayOf_selected ctx (columns.object_selecting _ _ _) (orderDraft_selecting _ _)).append
    (s.body_selecting base _ _ _)

theorem derivedCollection_selecting (readable : columns.isEmpty = false) :
    Selecting ctx.dialect (derivedCollection ctx base s columns filter link) := by
  have inner : Selecting ctx.dialect (.text " FROM (SELECT " ::
      columns.selectList s.relatedAlias s.satelliteAlias) :=
    .opened (by decide) (fun _ => columns.selectList_beginsItem readable _ _) (columns.selectList_selecting _ _)
  refine ((((Selecting.append (arrayOf_selected ctx (columns.flatObject_selecting _ _) ?_) inner).append
    (s.body_selecting base _ _ _)).append (s.orderClause_selecting _)).append ?_).append
    (.word (by decide) (.name _ .nil))
  · split
    · exact orderDraft_selecting _ _
    · exact .nil
  · split
    · exact .word (limitOffset_selectless ctx.dialect (some _) none) .nil
    · exact .nil

/-- Without a column that can be read the derived table selects nothing. -/
theorem derivedCollection_empty (none : columns.isEmpty = true) :
    [.text " FROM (SELECT ", .text " FROM "] <:+: derivedCollection ctx base s columns filter link := by
  obtain ⟨rest, begins⟩ := s.body_begins base ctx.locale filter link
  have list : columns.selectList s.relatedAlias s.satelliteAlias = [] := by
    rw [Columns.selectList, (columns.items_eq_nil_iff _ _).mpr none, separated]
  unfold derivedCollection
  rw [list, begins]
  exact ⟨.text "SELECT " :: arrayOf ctx.dialect (columns.flatObject ctx.dialect s.rowsAlias) _, _, by
    simp only [List.append_assoc, List.cons_append, List.nil_append]
    rfl⟩

theorem collection_selecting (readable : derives ctx filter = true → columns.isEmpty = false) :
    Selecting ctx.dialect (collection ctx base s columns filter link) := by
  unfold collection
  split
  · exact plainCollection_selecting ctx base s columns filter link
  case isFalse derived =>
    exact derivedCollection_selecting ctx base s columns filter link (readable (by simp [derives, derived]))

end Rows

end Subquery

/-- Whether a relation is requested of which no column can be read, and aggregated from a derived table. -/
def RelationRequest.SelectsNothing (r : RelationRequest) (ctx : Context) (base : Entity) : Prop :=
  ∃ s columns, Source.resolve ctx base r.name true = .ok s ∧ r.projection s = .ok columns ∧
    columns.isEmpty = true ∧ r.shape base = .ok .many ∧ Subquery.derives ctx r.filter = true

namespace Subquery

variable (ctx : Context) (base : Entity) (baseAlias : String)

theorem relation_selecting {r : RelationRequest} (readable : ¬r.SelectsNothing ctx base) :
    Selecting ctx.dialect (relation ctx base baseAlias r) := by
  refine .andThen fun _ _ => Source.andThen_selecting base fun s resolved =>
    Selecting.append (.quiet (by simp)) (.andThen fun columns projected => .andThen fun shape shaped => ?_)
  refine Selecting.append (.word (by decide) ?_) (.word (by decide) (.name _ .nil))
  cases shape with
  | one => exact single_selecting ctx base s columns r.filter _
  | many =>
    refine collection_selecting ctx base s columns r.filter _ fun derived => ?_
    apply Bool.eq_false_iff.mpr
    intro none
    exact readable ⟨s, columns, resolved, projected, none, shaped, derived⟩

/-- If no column can be read, the derived table of a relation stands without a select list. -/
theorem relation_empty {r : RelationRequest} (complete : (relation ctx base baseAlias r).failure? = none)
    (nothing : r.SelectsNothing ctx base) :
    [.text " FROM (SELECT ", .text " FROM "] <:+: relation ctx base baseAlias r := by
  obtain ⟨s, columns, resolved, projected, none, shaped, derived⟩ := nothing
  obtain ⟨segments, cut, -⟩ := failure?_andThen.mp complete
  have collected : collection ctx base s columns r.filter (.correlated baseAlias) =
      derivedCollection ctx base s columns r.filter (.correlated baseAlias) := by
    rw [collection, if_neg]
    intro plain
    rw [derives, plain] at derived
    exact absurd derived (by decide)
  rw [relation, cut, andThen]
  refine .trans ?_ (Source.infix_andThen resolved _)
  refine .trans ?_ (RelationRequest.infix_withProjection projected _)
  rw [shaped]
  change _ <:+: .text "(" :: collection ctx base s columns r.filter (.correlated baseAlias) ++
    [.text ") AS ", .name r.label]
  rw [collected]
  refine (derivedCollection_empty ctx base s columns r.filter (.correlated baseAlias) none).trans ?_
  exact ⟨[.text "("], [.text ") AS ", .name r.label], rfl⟩

theorem count_selecting (c : CountRequest) : Selecting ctx.dialect (count ctx base baseAlias c) := by
  refine Source.andThen_selecting base fun s _ => ?_
  refine Selecting.append (.select "COUNT(*)".toList (by decide) (fun _ => ?_) (s.body_selecting base _ _ _))
    (.word (by decide) (.name _ .nil))
  have known : "COUNT(".toList ∈ itemOpenings ctx.dialect := by simp [itemOpenings]
  exact .of_mem known ("*)".toList ++ _)

theorem aggregateCall_selecting (s : Source) (a : AggregateRequest) :
    Selecting d (aggregateCall ctx.dialect s a) := by
  have function : hasSelect a.function.sql = false := by cases a.function <;> decide
  have cast : hasSelect (if a.function.isNumeric then ctx.dialect.numericCast else "") = false := by
    split
    · cases ctx.dialect <;> simp only [Dialect.numericCast] <;> decide
    · decide
  exact (Selecting.append (.word function (.word (by decide) .nil)) (.qualified _ _)).append
    (.word (by decide) (.word cast .nil))

theorem aggregateCall_beginsItem (s : Source) (a : AggregateRequest) :
    BeginsItem d (Draft.text d (aggregateCall ctx.dialect s a)) := by
  have known : a.function.sql.toList ++ ['('] ∈ itemOpenings d := by
    cases a.function <;> simp [itemOpenings, AggregateFunction.sql]
  simpa [aggregateCall, Step.sql] using BeginsItem.of_mem known _

theorem aggregate_selecting (a : AggregateRequest) :
    Selecting ctx.dialect (aggregate ctx base baseAlias a) := by
  unfold aggregate
  split
  · exact .other (by simp) .nil
  · refine Source.andThen_selecting base fun s _ => ?_
    have selected : Selecting ctx.dialect (.text "(SELECT " :: aggregateCall ctx.dialect s a) :=
      .opened (by decide) (fun _ => aggregateCall_beginsItem ctx s a) (aggregateCall_selecting ctx s a)
    exact (selected.append (s.body_selecting base _ _ _)).append (.word (by decide) (.name _ .nil))

theorem searchTerms_selecting (e : Dialect) (pattern : String) {columns : List Draft}
    (each : ∀ column ∈ columns, Selecting d column) :
    ∀ draft ∈ searchTerms e pattern columns, Selecting d draft := by
  intro draft found
  obtain ⟨column, known, rfl⟩ := List.mem_map.mp found
  have operator : hasSelect e.likeOperator = false := by
    cases e <;> simp only [Dialect.likeOperator] <;> decide
  exact (each column known).append (.word (by decide) (.word operator (.word (by decide) (.bind _ .nil))))

theorem search_selecting (name : String) (columns : List String) (pattern : String) :
    Selecting ctx.dialect (search ctx base baseAlias name columns pattern) := by
  refine Source.andThen_selecting base fun s _ => ?_
  have selected : Selecting ctx.dialect
      (.text "EXISTS (SELECT 1" :: s.body ctx.locale base none (.correlated baseAlias)) := by
    refine .select ['1'] (by decide) (fun _ => ?_) (s.body_selecting base _ _ _)
    have known : ['1'] ∈ itemOpenings ctx.dialect := by simp [itemOpenings]
    exact .of_mem known _
  have terms : Selecting ctx.dialect (separated " OR "
      (searchTerms ctx.dialect pattern (columns.map (qualified s.relatedAlias)))) := by
    refine .separated (by decide) (searchTerms_selecting _ _ fun column found => ?_)
    obtain ⟨name, -, rfl⟩ := List.mem_map.mp found
    exact .qualified _ _
  exact (selected.append (.word (by decide) terms)).append (.word (by decide) .nil)

end Subquery

namespace Keyed

variable (ctx : Context) (base : Entity) (keys : List DbValue)

private theorem ownerItem_selected (s : Source) :
    Selecting ctx.dialect (.text "SELECT " :: ownerItem s) := by
  have begins : BeginsItem ctx.dialect (Draft.text ctx.dialect (ownerItem s)) := .name s.ownerColumn.1 _
  have item : Selecting ctx.dialect (ownerItem s) :=
    Selecting.append (.qualified _ _) (.word (by decide) (.name _ .nil))
  exact .opened (by decide) (fun _ => begins) item

/-- A keyed statement selects the owner's key whatever columns can be read. -/
theorem relation_selecting (r : RelationRequest) (columns : ColumnSelection) :
    Selecting ctx.dialect (relation ctx base r columns keys) := by
  refine Source.andThen_selecting base fun s _ =>
    Selecting.append (.quiet (by simp)) (.andThen fun projected _ => ?_)
  refine (((ownerItem_selected ctx s).append ?_).append (s.body_selecting base _ _ _)).append
    (s.orderClause_selecting _)
  split
  · exact .nil
  · exact .word (by decide) (projected.selectList_selecting _ _)

private theorem grouped_selecting (s : Source) {value : Draft} (hv : Selecting ctx.dialect value)
    (filter : Option Filter) : Selecting ctx.dialect (grouped ctx base s value filter keys) := by
  have owner : Selecting ctx.dialect s.owner := .qualified _ _
  exact (((ownerItem_selected ctx s).append (.word (by decide) hv)).append (.word (by decide) (.name _ .nil))).append
    (s.body_selecting base _ _ _) |>.append (.word (by decide) owner)

theorem count_selecting (c : CountRequest) : Selecting ctx.dialect (count ctx base c keys) :=
  Source.andThen_selecting base fun s _ => grouped_selecting ctx base keys s (.word (by decide) .nil) _

theorem aggregate_selecting (a : AggregateRequest) :
    Selecting ctx.dialect (aggregate ctx base a keys) := by
  refine Source.andThen_selecting base fun s _ => Selecting.append ?_
    (grouped_selecting ctx base keys s (Subquery.aggregateCall_selecting ctx s a) _)
  exact .quiet (by simp)

end Keyed
end EagerLoad
