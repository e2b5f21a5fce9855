import EagerLoad.Proofs.Relation.Aliases
import EagerLoad.Proofs.Relation.Selecting

/-! # The order of a limited relation

The rows of a limited relation come from a derived table, which is ordered before it is cut off. Where the
aggregate around it takes an order, the order is stated again by names of the derived table's columns. A column
of another table, such as a pivot, is stated again by the selected column of the same name. -/
namespace EagerLoad

open Sql Sql.Draft

/-- References with directions, as ORDER BY lists them. -/
def orderSql (d : Dialect) (terms : List ((String × String) × Direction)) : String :=
  if terms.isEmpty then ""
  else " ORDER BY " ++ ", ".intercalate
    (terms.map fun t => d.qualified t.1.1 t.1.2 ++ " " ++ t.2.sql)

theorem sql_orderDraft {d : Dialect} {q : Qualifier} {refer : String → String × String}
    (terms : List OrderTerm)
    (reads : ∀ t ∈ terms, q.column t.column = qualified (refer t.column).1 (refer t.column).2) :
    ((if terms.isEmpty then [] else .text " ORDER BY " :: orderDraft q terms : Draft).fragment d).sql =
      orderSql d (terms.map fun t => (refer t.column, t.direction)) := by
  rw [orderSql, List.isEmpty_map]
  split
  · rfl
  · rw [sql_cons, orderDraft, sql_separated, List.map_map, List.map_map]
    congr 2
    apply List.map_congr_left
    intro t known
    simp only [Function.comp_apply, OrderTerm.draft, sql_append, reads t known, sql_qualified]
    simp [fragment, Step.sql, String.append_assoc]

theorem isEmpty_orderDraft (q : Qualifier) (terms : List OrderTerm) :
    (orderDraft q terms).isEmpty = terms.isEmpty := by
  cases terms with
  | nil => rfl
  | cons t rest => cases rest <;> simp [orderDraft, separated, OrderTerm.draft]

namespace Source

/-- The table and the column that an order term reads. -/
def orderedBy (s : Source) (column : String) : String × String :=
  referred (if s.localizedFields.contains column then s.satelliteAlias else s.relatedAlias) column

theorem column_qualifier (s : Source) (column : String) :
    s.qualifier.column column = qualified (s.orderedBy column).1 (s.orderedBy column).2 := by
  rw [qualifier, Qualifier.column, Qualifier.forColumn_localize, column_eq_qualified, orderedBy]

/-- The columns that a derived table selects, with their tables. Each is given out under its own name. -/
def selected (s : Source) (columns : Columns) : List (String × String) :=
  columns.main.map (s.relatedAlias, ·) ++ columns.localized.map (s.satelliteAlias, ·)

/-- The order of a derived table. -/
def innerOrder (s : Source) (order : List OrderTerm) : List ((String × String) × Direction) :=
  order.map fun t => (s.orderedBy t.column, t.direction)

theorem sql_orderClause (s : Source) (d : Dialect) (order : List OrderTerm) :
    ((s.orderClause order).fragment d).sql = orderSql d (s.innerOrder order) :=
  sql_orderDraft order fun t _ => s.column_qualifier t.column

/-- The same order, by the names of the derived table's columns. -/
def outerOrder (s : Source) (order : List OrderTerm) : List ((String × String) × Direction) :=
  order.map fun t => ((s.rowsAlias, (s.orderedBy t.column).2), t.direction)

end Source

/-- A valid name is what stands after the last point. -/
theorem referred_eq_last {table column : String}
    (valid : Identifier.fault? (referred table column).2 = none) :
    String.ofList (((Text.splitAll '.' column.toList).getLast?).getD []) = (referred table column).2 := by
  have undotted {letters : List Char} (valid : Identifier.fault? (String.ofList letters) = none) :
      '.' ∉ letters := by
    intro found
    have allowed := isAllowed_of_fault?_eq_none _ valid '.' (by simpa using found)
    exact absurd allowed (by decide)
  unfold referred at valid ⊢
  cases cut : Text.splitFirst? '.' column.toList with
  | none =>
    rw [Text.splitAll_of_notMem (Text.splitFirst?_eq_none_iff.mp cut)]
    simp
  | some parts =>
    obtain ⟨front, back⟩ := parts
    rw [cut] at valid
    obtain ⟨whole, free⟩ := Text.eq_of_splitFirst? cut
    rw [whole, Text.splitAll_append free, Text.splitAll_of_notMem (undotted valid)]
    rfl

namespace Subquery

private theorem mapM_eq {P : α → Prop} [DecidablePred P] {f : α → Option β} {g : α → β} {items : List α}
    (each : ∀ x ∈ items, f x = if P x then some (g x) else none) :
    items.mapM f = if ∀ x ∈ items, P x then some (items.map g) else none := by
  induction items with
  | nil => rfl
  | cons x rest ih =>
    obtain ⟨first, others⟩ := List.forall_mem_cons.mp each
    rw [List.mapM_cons, first, ih others]
    by_cases here : P x
    · by_cases later : ∀ y ∈ rest, P y
      · rw [if_pos here, if_pos later, if_pos (List.forall_mem_cons.mpr ⟨here, later⟩)]
        rfl
      · rw [if_pos here, if_neg later, if_neg fun all => later (List.forall_mem_cons.mp all).2]
        rfl
    · rw [if_neg here, if_neg fun all => here (List.forall_mem_cons.mp all).1]
      rfl

variable {ctx : Context} {base : Entity} {baseAlias : String} {s : Source} {columns : Columns}
  {order : List OrderTerm}

/-- The names by which all terms can be stated again, if there are any. -/
theorem projectedOrder_eq (valid : ∀ t ∈ order, Identifier.fault? (s.orderedBy t.column).2 = none) :
    projectedOrder order columns =
      if order = [] then none
      else if ∀ t ∈ order, (s.orderedBy t.column).2 ∈ columns.names then
        some (order.map fun t => ⟨(s.orderedBy t.column).2, t.direction⟩)
      else none := by
  unfold projectedOrder
  simp only [List.isEmpty_iff]
  refine if_congr Iff.rfl rfl (mapM_eq fun t known => ?_)
  rw [referred_eq_last (valid t known)]
  exact if_congr List.contains_iff_mem rfl rfl

theorem valid_of_ordered (complete : (s.orderClause order).failure? = none) :
    ∀ t ∈ order, Identifier.fault? (s.orderedBy t.column).2 = none := by
  unfold Source.orderClause at complete
  split at complete
  case isTrue none =>
    rw [List.isEmpty_iff.mp none]
    exact List.forall_mem_nil _
  case isFalse =>
    intro t known
    have terms := (failure?_separated _ _).mp ((failure?_cons _ _).mp complete).2
    have term := ((failure?_append _ _).mp (terms _ (List.mem_map_of_mem known))).1
    rw [Source.column_qualifier] at term
    exact ((failure?_qualified _ _).mp term).2

/-- What the aggregate around a derived table is ordered by. -/
def outerSql (d : Dialect) (s : Source) (columns : Columns) (order : List OrderTerm) : String :=
  if ∀ t ∈ order, (s.orderedBy t.column).2 ∈ columns.names then orderSql d (s.outerOrder order) else ""

theorem sql_arrayOf {d : Dialect} (orders : d.ordersAggregate = true) (row outer : Draft) :
    ((arrayOf d row outer).fragment d).sql = d.arrayAggregate.1 ++ (row.fragment d).sql ++
      (Draft.fragment d (if outer.isEmpty then [] else .text " ORDER BY " :: outer)).sql ++
      d.arrayAggregate.2 ++ d.textCast := by
  have given : (if d.ordersAggregate && !outer.isEmpty then .text " ORDER BY " :: outer else [] : Draft) =
      if outer.isEmpty then [] else .text " ORDER BY " :: outer := by
    rw [orders]
    cases outer.isEmpty <;> rfl
  rw [arrayOf, given]
  simp only [sql_append, sql_cons]
  simp [Draft.fragment, Step.sql, String.append_assoc]

theorem sql_outer (d : Dialect) (valid : ∀ t ∈ order, Identifier.fault? (s.orderedBy t.column).2 = none)
    {outer : Draft} (given : outer = ((projectedOrder order columns).map fun terms =>
      orderDraft (.ofTable s.rowsAlias) terms).getD []) :
    (Draft.fragment d (if outer.isEmpty then [] else .text " ORDER BY " :: outer)).sql =
      outerSql d s columns order := by
  rw [projectedOrder_eq valid] at given
  rw [outerSql]
  by_cases none : order = []
  · subst none
    rw [given]
    rfl
  rw [if_neg none] at given
  split at given
  case isTrue all =>
    have rows : ∀ t ∈ order.map fun t => (⟨(s.orderedBy t.column).2, t.direction⟩ : OrderTerm),
        (Qualifier.ofTable s.rowsAlias).column t.column = qualified s.rowsAlias t.column := by
      intro t known
      obtain ⟨term, listed, rfl⟩ := List.mem_map.mp known
      exact Qualifier.column_ofTable (undotted_of_valid (valid term listed)) _
    rw [if_pos all, given, Option.map_some, Option.getD_some, isEmpty_orderDraft,
      @sql_orderDraft d _ (s.rowsAlias, ·) _ rows, List.map_map]
    rfl
  case isFalse some =>
    rw [if_neg some, given]
    rfl

/-- The columns of a derived table, the localized ones under their names. -/
def itemsSql (d : Dialect) (s : Source) (columns : Columns) : List String :=
  columns.main.map (d.qualified s.relatedAlias) ++
    columns.localized.map fun x => d.qualified s.satelliteAlias x ++ " AS " ++ d.quote x

/-- An array that is aggregated from a derived table, with an order for the aggregate. -/
def derivedSql (ctx : Context) (base : Entity) (baseAlias : String) (filter : Option Filter) (s : Source)
    (columns : Columns) (limit : Nat) (outer : String) : String :=
  "SELECT " ++ ctx.dialect.arrayAggregate.1 ++
    ((columns.flatObject ctx.dialect s.rowsAlias).fragment ctx.dialect).sql ++ outer ++
    ctx.dialect.arrayAggregate.2 ++ ctx.dialect.textCast ++
    " FROM (SELECT " ++ ", ".intercalate (itemsSql ctx.dialect s columns) ++
    ((s.body ctx.locale base filter (.correlated baseAlias)).fragment ctx.dialect).sql ++
    orderSql ctx.dialect (s.innerOrder (orderOf filter)) ++ " LIMIT " ++ toString limit ++
    ") AS " ++ ctx.dialect.quote s.rowsAlias

theorem sql_items (d : Dialect) (s : Source) (columns : Columns) :
    (columns.items s.relatedAlias s.satelliteAlias).map (fun item => (item.fragment d).sql) =
      itemsSql d s columns := by
  rw [Columns.items, itemsSql, List.map_append, List.map_map, List.map_map]
  refine congrArg₂ _ (List.map_congr_left fun x _ => sql_qualified d _ x) (List.map_congr_left fun x _ => ?_)
  rw [Function.comp_apply, sql_append, sql_qualified]
  simp [Draft.fragment, Step.sql, String.append_assoc]

theorem sql_derived {filter : Option Filter} {limit : Nat}
    (orders : ctx.dialect.ordersAggregate = true) (limited : limitOf filter = some limit)
    (valid : ∀ t ∈ orderOf filter, Identifier.fault? (s.orderedBy t.column).2 = none) :
    ((derivedCollection ctx base s columns filter (.correlated baseAlias)).fragment ctx.dialect).sql =
      derivedSql ctx base baseAlias filter s columns limit
        (outerSql ctx.dialect s columns (orderOf filter)) := by
  obtain ⟨outer, given, whole⟩ : ∃ outer : Draft,
      outer = ((projectedOrder (orderOf filter) columns).map fun terms =>
        orderDraft (.ofTable s.rowsAlias) terms).getD [] ∧
      derivedCollection ctx base s columns filter (.correlated baseAlias) =
        .text "SELECT " :: arrayOf ctx.dialect (columns.flatObject ctx.dialect s.rowsAlias) outer ++
          .text " FROM (SELECT " :: columns.selectList s.relatedAlias s.satelliteAlias ++
          s.body ctx.locale base filter (.correlated baseAlias) ++ s.orderClause (orderOf filter) ++
          [.text (" LIMIT " ++ toString limit)] ++ [.text ") AS ", .name s.rowsAlias] := by
    refine ⟨_, rfl, ?_⟩
    unfold derivedCollection
    rw [limited]
    cases projectedOrder (orderOf filter) columns <;> rfl
  rw [whole]
  unfold derivedSql
  simp only [sql_append, sql_cons, sql_arrayOf orders, sql_outer _ valid given, s.sql_orderClause,
    Columns.selectList, sql_separated, sql_items, Step.sql]
  simp [Draft.fragment, String.append_assoc]

/-- That the order of an aggregate is the order of the derived table, or none at all if a column of that is not
selected. -/
structure KeepsOrder (d : Dialect) (s : Source) (columns : Columns) (order : List OrderTerm)
    (outer : String) : Prop where
  restated : outer ≠ "" → outer = orderSql d (s.outerOrder order) ∧
    ∀ t ∈ order, s.orderedBy t.column ∈ s.selected columns
  absent : (∃ t ∈ order, s.orderedBy t.column ∉ s.selected columns) → outer = ""

theorem orderSql_ne_empty {d : Dialect} {terms : List ((String × String) × Direction)} (some : terms ≠ []) :
    orderSql d terms ≠ "" := by
  rw [orderSql, if_neg (by rwa [List.isEmpty_iff])]
  intro empty
  exact absurd (congrArg String.toList empty) (by simp)

/-- Names decide whether the order is stated again, and it is the same order if they stand for its columns. -/
theorem keepsOrder_iff (d : Dialect) :
    KeepsOrder d s columns order (outerSql d s columns order) ↔
      ((∀ t ∈ order, (s.orderedBy t.column).2 ∈ columns.names) →
        ∀ t ∈ order, s.orderedBy t.column ∈ s.selected columns) := by
  constructor
  · intro keeps named t known
    have written : outerSql d s columns order ≠ "" := by
      rw [outerSql, if_pos named]
      apply orderSql_ne_empty
      rw [Source.outerOrder, Ne, List.map_eq_nil_iff]
      exact List.ne_nil_of_mem known
    exact (keeps.restated written).2 t known
  · intro same
    by_cases named : ∀ t ∈ order, (s.orderedBy t.column).2 ∈ columns.names
    · refine ⟨fun _ => ⟨by rw [outerSql, if_pos named], same named⟩, ?_⟩
      rintro ⟨t, known, other⟩
      exact absurd (same named t known) other
    · have none : outerSql d s columns order = "" := by rw [outerSql, if_neg named]
      exact ⟨fun written => absurd none written, fun _ => none⟩

/-- The columns that are read from a satellite table are localized. -/
theorem fields_of_resolve {e : Entity} {selection : ColumnSelection} {localization : Option Localization}
    {columns : Columns} (resolved : Columns.resolve e selection localization = .ok columns) :
    ∀ x ∈ columns.localized, x ∈ e.localizedFields := by
  refine Columns.of_resolve (P := fun c => ∀ x ∈ c.localized, x ∈ e.localizedFields)
    (List.forall_mem_nil _) (fun c column own => ?_) resolved
  unfold Columns.insert
  split
  case isTrue declared =>
    split
    · intro x known
      obtain known | rfl := (mem_addNew _ _ _).mp known
      · exact own x known
      · exact List.contains_iff_mem.mp declared
    · exact own
  case isFalse => exact own

theorem fields_of_projection {r : RelationRequest} (projected : r.projection s = .ok columns) :
    ∀ x ∈ columns.localized, x ∈ s.related.localizedFields := by
  unfold RelationRequest.projection at projected
  split at projected
  · exact fields_of_resolve projected
  · exact absurd projected (by simp)

/-- A column without a point is selected if its name is. -/
theorem selected_of_undotted {r : RelationRequest} (projected : r.projection s = .ok columns)
    (declared : ∀ l, s.localization = some l → s.related.localization? = some l) {column : String}
    (undotted : Undotted column) :
    (s.orderedBy column).2 ∈ columns.names ↔ s.orderedBy column ∈ s.selected columns := by
  have fields (some : s.localization.isSome = true) : s.localizedFields = s.related.localizedFields := by
    obtain ⟨l, found⟩ := Option.isSome_iff_exists.mp some
    rw [← Entity.fields_of_localization? (declared l found), Source.localizedFields, found]
    rfl
  have own (known : column ∈ columns.main) : column ∉ s.localizedFields := by
    cases found : s.localization with
    | none => simp [Source.localizedFields, found]
    | some l =>
      rw [fields (by rw [found]; rfl)]
      unfold RelationRequest.projection at projected
      split at projected
      · exact Columns.main_of_resolve projected column known
      · exact absurd projected (by simp)
  have lent (known : column ∈ columns.localized) : column ∈ s.localizedFields := by
    rcases RelationRequest.localized_of_projection projected with some | none
    · rw [fields some]
      exact fields_of_projection projected column known
    · exact absurd (none ▸ known) List.not_mem_nil
  have plain : s.orderedBy column =
      (if s.localizedFields.contains column then s.satelliteAlias else s.relatedAlias, column) := by
    unfold Undotted at undotted
    unfold Source.orderedBy referred
    rw [undotted]
  rw [plain]
  constructor
  · intro known
    obtain main | localized := List.mem_append.mp known
    · rw [if_neg (by simpa using own main)]
      exact List.mem_append_left _ (List.mem_map_of_mem main)
    · rw [if_pos (by simpa using lent localized)]
      exact List.mem_append_right _ (List.mem_map_of_mem localized)
  · intro known
    refine List.mem_append.mpr ((List.mem_append.mp known).imp ?_ ?_)
    all_goals
      intro listed
      obtain ⟨x, found, same⟩ := List.mem_map.mp listed
      obtain ⟨-, rfl⟩ := Prod.mk.inj same
      exact found

theorem relation_derived {r : RelationRequest} {limit : Nat}
    (complete : (relation ctx base baseAlias r).failure? = none)
    (orders : ctx.dialect.ordersAggregate = true) (many : r.shape base = .ok .many)
    (limited : limitOf r.filter = some limit) (resolved : Source.resolve ctx base r.name true = .ok s)
    (projected : r.projection s = .ok columns) :
    ((relation ctx base baseAlias r).fragment ctx.dialect).sql =
      "(" ++ derivedSql ctx base baseAlias r.filter s columns limit
        (outerSql ctx.dialect s columns (orderOf r.filter)) ++ ") AS " ++ ctx.dialect.quote r.label := by
  obtain ⟨source, own, shape, known, asked, -, -, -, ordered⟩ := relation_parts complete
  obtain rfl := Except.ok.inj (resolved.symm.trans known)
  obtain ⟨segments, cut, -⟩ := failure?_andThen.mp complete
  have derived : collection ctx base s columns r.filter (.correlated baseAlias) =
      derivedCollection ctx base s columns r.filter (.correlated baseAlias) := by
    rw [collection, if_neg (by simp [limited])]
  have whole : (relation ctx base baseAlias r).fragment ctx.dialect = Draft.fragment ctx.dialect
      (.text "(" :: derivedCollection ctx base s columns r.filter (.correlated baseAlias) ++
        [.text ") AS ", .name r.label]) := by
    rw [relation, cut, andThen, Source.andThen, resolved, andThen, fragment_silent,
      RelationRequest.withProjection, fragment_silent, projected, andThen, many, andThen, ← derived]
    · intro step found
      obtain ⟨notice, -, rfl⟩ := List.mem_map.mp found
      exact ⟨rfl, rfl⟩
    · split <;> simp [Step.sql, Step.bindings]
  rw [whole, sql_append, sql_cons, sql_derived orders limited (valid_of_ordered ordered)]
  simp [Draft.fragment, Step.sql, String.append_assoc]

/-- A limited relation whose aggregate takes an order states the order of its derived table again exactly if it
selects a column of each term's name. Without points in the terms these are the columns of the order. -/
theorem relation_restates {r : RelationRequest} {limit : Nat}
    (complete : (relation ctx base baseAlias r).failure? = none)
    (orders : ctx.dialect.ordersAggregate = true) (many : r.shape base = .ok .many)
    (limited : limitOf r.filter = some limit) :
    ∃ s columns, Source.resolve ctx base r.name true = .ok s ∧ r.projection s = .ok columns ∧
      ((relation ctx base baseAlias r).fragment ctx.dialect).sql =
        "(" ++ derivedSql ctx base baseAlias r.filter s columns limit
          (outerSql ctx.dialect s columns (orderOf r.filter)) ++ ") AS " ++ ctx.dialect.quote r.label ∧
      (KeepsOrder ctx.dialect s columns (orderOf r.filter)
          (outerSql ctx.dialect s columns (orderOf r.filter)) ↔
        ((∀ t ∈ orderOf r.filter, (s.orderedBy t.column).2 ∈ columns.names) →
          ∀ t ∈ orderOf r.filter, s.orderedBy t.column ∈ s.selected columns)) ∧
      ((∀ l, s.localization = some l → s.related.localization? = some l) →
        ∀ t ∈ orderOf r.filter, Undotted t.column →
          ((s.orderedBy t.column).2 ∈ columns.names ↔ s.orderedBy t.column ∈ s.selected columns)) := by
  obtain ⟨s, columns, shape, resolved, projected, -⟩ := relation_parts complete
  exact ⟨s, columns, resolved, projected,
    relation_derived complete orders many limited resolved projected, keepsOrder_iff _,
    fun declared t _ undotted => selected_of_undotted projected declared undotted⟩

end Subquery

namespace Pivoted

def tag : Entity := { type := "Tag", table := "tags", columns := ["slug"] }

def article : Entity :=
  { type := "Article", table := "articles", columns := ["title"]
    relations := [("tags", .manyToMany "Tag" "article_tag" "article_id" "tag_id")] }

def context : Context := ⟨.postgresql, [("Tag", tag)], [], none⟩

/-- The three tags that were put on an article last. -/
def latest : RelationRequest :=
  { name := "tags", kind := .manyToMany, columns := .columns ["id"]
    filter := some { order := [⟨"tags_pivot.id", .descending⟩], limit := some 3 } }

/-- Where they are read from. -/
def source : Source := ⟨"tags", .manyToMany "Tag" "article_tag" "article_id" "tag_id", tag, none⟩

def columns : Columns := ⟨["id"], []⟩

theorem complete : (Subquery.relation context article "articles" latest).failure? = none := by decide

end Pivoted

open Pivoted in
theorem relation_restates_latest :
    (Subquery.relation context article "articles" latest).failure? = none ∧
      context.dialect.ordersAggregate = true ∧ latest.shape article = .ok .many ∧
      Subquery.limitOf latest.filter = some 3 ∧
      ∃ s columns, Source.resolve context article latest.name true = .ok s ∧
        latest.projection s = .ok columns ∧
        ((Subquery.relation context article "articles" latest).fragment .postgresql).sql =
          "(" ++ Subquery.derivedSql context article "articles" latest.filter s columns 3
            (Subquery.outerSql .postgresql s columns (Subquery.orderOf latest.filter)) ++ ") AS " ++
          Dialect.postgresql.quote "tags" := by
  obtain ⟨s, columns, resolved, projected, written, -⟩ :=
    Subquery.relation_restates complete rfl rfl rfl
  exact ⟨complete, rfl, rfl, rfl, s, columns, resolved, projected, written⟩

open Pivoted in
/-- The tags are cut off by the keys of the pivot, and aggregated by their own. -/
theorem not_keepsOrder_latest :
    Source.resolve context article latest.name true = .ok source ∧ latest.projection source = .ok columns ∧
      ((Subquery.relation context article "articles" latest).fragment .postgresql).sql =
        "(" ++ Subquery.derivedSql context article "articles" latest.filter source columns 3
          " ORDER BY \x22tags_rows\x22.\x22id\x22 DESC" ++ ") AS " ++ Dialect.postgresql.quote "tags" ∧
      Subquery.itemsSql .postgresql source columns = ["\x22tags_rel\x22.\x22id\x22"] ∧
      orderSql .postgresql (source.innerOrder (Subquery.orderOf latest.filter)) =
        " ORDER BY \x22tags_pivot\x22.\x22id\x22 DESC" ∧
      ¬Subquery.KeepsOrder .postgresql source columns (Subquery.orderOf latest.filter)
        " ORDER BY \x22tags_rows\x22.\x22id\x22 DESC" := by
  have outer : Subquery.outerSql context.dialect source columns (Subquery.orderOf latest.filter) =
      " ORDER BY \x22tags_rows\x22.\x22id\x22 DESC" := by decide
  have resolved : Source.resolve context article latest.name true = .ok source := rfl
  have projected : latest.projection source = .ok columns := rfl
  have written := Subquery.relation_derived complete rfl rfl rfl resolved projected
  rw [outer] at written
  refine ⟨resolved, projected, written, by decide, by decide, fun keeps => ?_⟩
  have selected := (keeps.restated (by decide)).2
  exact absurd selected (by decide)

end EagerLoad
