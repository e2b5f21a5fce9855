import EagerLoad.Proofs.Filter.Cited
import EagerLoad.Proofs.Relation.Keyed

/-! # The columns that subqueries refer to

A subquery refers to the keys that tie its tables to each other and to the owner, to the columns that it
selects, and to those that its filter and its order mention. In a locale that of a relation joins the satellite
of a localized entity and reads the localized columns from it. Counts, aggregates and searches do not look for
a satellite and read all columns from the related table. -/
namespace EagerLoad

open Sql Sql.Draft

theorem qualified_cites (name column : String) : Cites [.at name column] (qualified name column) :=
  .one (.at name column)

/-- The columns by which a satellite is joined. -/
def Localization.references (l : Localization) (owner key satellite : String) : List Reference :=
  [.at owner key, .at satellite l.foreignKey, .at satellite l.localeColumn]

theorem Localization.join_cites (l : Localization) (owner key satellite locale : String) :
    Cites (l.references owner key satellite) (l.join owner key satellite locale) := by
  have tables : Cites [] [.text " LEFT JOIN ", .name l.satellite, .text " AS ", .name satellite,
      .text " ON "] := .plain (by simp)
  have foreign : Cites [.at satellite l.foreignKey]
      (.text " = " :: qualified satellite l.foreignKey) :=
    .step (by simp) (qualified_cites _ _)
  have localeColumn : Cites [.at satellite l.localeColumn]
      (.text " AND " :: qualified satellite l.localeColumn) :=
    .step (by simp) (qualified_cites _ _)
  have keys := ((tables.append (qualified_cites owner key)).append foreign).append localeColumn
  exact keys.followed (by simp)

namespace Dialect

variable (d : Dialect)

theorem objectFunction_apart : d.objectFunction ≠ "." := by
  cases d <;> simp [objectFunction]

theorem textCast_apart : d.textCast ≠ "." := by
  cases d <;> simp [textCast]

theorem numericCast_apart : d.numericCast ≠ "." := by
  cases d <;> simp [numericCast]

theorem arrayAggregate_apart : d.arrayAggregate.1 ≠ "." ∧ d.arrayAggregate.2 ≠ "." := by
  unfold arrayAggregate
  split
  · decide
  · decide
  · split <;> decide

theorem limitOffset_apart (limit offset : Option Nat) : d.limitOffset limit offset ≠ "." := by
  have spaced {sql : String} (blank : ' ' ∈ sql.toList) : sql ≠ "." := by
    rintro rfl
    exact absurd blank (by decide)
  have begun (word count : String) (blank : ' ' ∈ word.toList) : word ++ count ≠ "." := by
    apply spaced
    rw [String.toList_append]
    exact List.mem_append_left _ blank
  have follows (unlimited : String) (n : Nat) : unlimited ++ " OFFSET " ++ toString n ≠ "." := by
    apply begun
    rw [String.toList_append]
    exact List.mem_append_right _ (by decide)
  cases limit with
  | none =>
    cases offset with
    | none => exact (by decide : "" ≠ ".")
    | some n => exact follows _ n
  | some m =>
    cases offset with
    | none => exact begun " LIMIT " (toString m) (by decide)
    | some n => exact follows _ n

end Dialect

namespace Columns

variable (c : Columns)

def references (mainAlias satelliteAlias : String) : List Reference :=
  c.main.map (.at mainAlias) ++ c.localized.map (.at satelliteAlias)

/-- The columns of the entity's own table are not localized. -/
theorem main_of_resolve {e : Entity} {selection : ColumnSelection} {localization : Option Localization}
    {c : Columns} (resolved : resolve e selection localization = .ok c) :
    ∀ x ∈ c.main, x ∉ e.localizedFields := by
  refine of_resolve (P := fun c => ∀ x ∈ c.main, x ∉ e.localizedFields) (List.forall_mem_nil _)
    (fun c column own => ?_) resolved
  unfold insert
  split
  · split <;> exact own
  · rename_i unlisted
    intro x known
    rcases (mem_addNew _ _ _).mp known with known | rfl
    · exact own x known
    · simpa using unlisted

/-- A select list that can be completed has valid names only. -/
theorem valid_of_complete {c : Columns} {mainAlias satelliteAlias : String}
    (complete : (c.selectList mainAlias satelliteAlias).failure? = none) :
    ∀ x ∈ c.names, Identifier.fault? x = none := by
  have valid {source x : String} (reference : (qualified source x).failure? = none) :
      Identifier.fault? x = none := by
    simp only [qualified, failure?_cons] at reference
    simpa [Step.failure?] using reference.2.2.1
  have items := (failure?_separated _ _).mp complete
  intro x known
  rcases List.mem_append.mp known with main | localized
  · exact valid (items _ (List.mem_append_left _ (List.mem_map_of_mem main)))
  · have item := items _ (List.mem_append_right _ (List.mem_map_of_mem localized))
    exact valid ((failure?_append _ _).mp item).1

theorem named_of_complete {c : Columns} {mainAlias satelliteAlias : String}
    (complete : (c.selectList mainAlias satelliteAlias).failure? = none) : ∀ x ∈ c.names, x ≠ "." := by
  rintro x known rfl
  exact absurd (valid_of_complete complete "." known) (by decide)

theorem pair_cites {column : String} (named : column ≠ ".") (source : String) :
    Cites [.at source column] (pair source column) := by
  have quoted : Cites [] [.text "'", .text column, .text "', "] := .plain (by simpa using named)
  exact quoted.append (qualified_cites source column)

theorem pairs_cite {names : List String} (named : ∀ x ∈ names, x ≠ ".") (source : String) :
    List.Forall₂ (fun r draft => Cites [r] draft) (names.map (.at source)) (names.map (pair source)) :=
  Cites.each fun x known => pair_cites (named x known) source

theorem function_cites (d : Dialect) : Cites [] [.text d.objectFunction, .text "("] :=
  .plain (by simpa using d.objectFunction_apart)

theorem object_cites (named : ∀ x ∈ c.names, x ≠ ".") (d : Dialect)
    (mainAlias satelliteAlias : String) :
    Cites (c.references mainAlias satelliteAlias) (c.object d mainAlias satelliteAlias) := by
  have main := pairs_cite (fun x known => named x (List.mem_append_left _ known)) mainAlias
  have localized :=
    pairs_cite (fun x known => named x (List.mem_append_right _ known)) satelliteAlias
  have pairs := Cites.listed ", " (by decide) (List.rel_append main localized)
  exact ((function_cites d).append pairs).followed (by simp)

theorem flatObject_cites (named : ∀ x ∈ c.names, x ≠ ".") (d : Dialect) (source : String) :
    Cites (c.names.map (.at source)) (c.flatObject d source) := by
  have pairs := Cites.listed ", " (by decide) (pairs_cite named source)
  exact ((function_cites d).append pairs).followed (by simp)

theorem items_cite (mainAlias satelliteAlias : String) :
    List.Forall₂ (fun r draft => Cites [r] draft) (c.references mainAlias satelliteAlias)
      (c.items mainAlias satelliteAlias) := by
  unfold references items
  refine List.rel_append (Cites.each fun x _ => qualified_cites _ x) (Cites.each fun x _ => ?_)
  exact (qualified_cites _ x).followed (by simp)

theorem selectList_cites (mainAlias satelliteAlias : String) :
    Cites (c.references mainAlias satelliteAlias) (c.selectList mainAlias satelliteAlias) :=
  .listed _ (by decide) (c.items_cite mainAlias satelliteAlias)

end Columns

namespace Source

variable (s : Source) (base : Entity)

/-- The keys that tie the tables of a source to each other. -/
def tableReferences : List Reference :=
  match s.relation with
  | .belongsToMany _ p => [.at s.relatedAlias p.relatedKey, .at s.pivotAlias p.relatedPivotKey]
  | .hasManyThrough _ t => [.at s.throughAlias t.secondLocalKey, .at s.relatedAlias t.secondKey]
  | _ => []

def satelliteReferences (locale : Option String) : List Reference :=
  match s.localization, locale with
  | some l, some _ => l.references s.relatedAlias s.related.primaryKey s.satelliteAlias
  | _, _ => []

/-- The keys that tie the related rows to the rows of an owner, the column of the owner's class, and the mark
of a deleted row. -/
def scopeReferences (baseAlias : String) : List Reference :=
  [.at s.ownerColumn.1 s.ownerColumn.2, .at baseAlias s.relation.baseKey] ++
    (match s.morphTest base with
      | some (table, column, _) => [.at table column]
      | none => []) ++
    if s.related.softDeletes then [.at s.relatedAlias "deleted_at"] else []

/-- The columns that a source reads whatever is asked of it. -/
def keyReferences (locale : Option String) (baseAlias : String) : List Reference :=
  s.tableReferences ++ s.satelliteReferences locale ++ s.scopeReferences base baseAlias

def filterReferences (filter : Option Filter) : List Reference :=
  ((filter.map Filter.mentions).getD []).map (.through s.qualifier)

def bodyReferences (locale : Option String) (baseAlias : String) (filter : Option Filter) :
    List Reference :=
  s.keyReferences base locale baseAlias ++ s.filterReferences filter

omit s in
theorem tableAs_cites (keyword : String) (apart : keyword ≠ ".") (table name : String) :
    Cites [] (tableAs keyword table name) := .plain (by simpa [tableAs] using apart)

theorem tables_cites : Cites s.tableReferences s.tables := by
  have equal (name column : String) : Cites [.at name column] (.text " = " :: qualified name column) :=
    .step (by simp) (qualified_cites name column)
  have on (name column : String) : Cites [.at name column] (.text " ON " :: qualified name column) :=
    .step (by simp) (qualified_cites name column)
  have joined (table name other othersName : String) :
      Cites [] (tableAs " FROM " table name ++ tableAs " INNER JOIN " other othersName) :=
    (tableAs_cites _ (by decide) _ _).append (tableAs_cites _ (by decide) _ _)
  unfold tables tableReferences
  cases s.relation with
  | belongsToMany related p => exact ((joined _ _ _ _).append (on _ _)).append (equal _ _)
  | hasManyThrough related t => exact ((joined _ _ _ _).append (on _ _)).append (equal _ _)
  | belongsTo | hasOne | hasMany | morphOne | morphMany =>
    exact tableAs_cites " FROM " (by decide) _ _

theorem satellite_cites (locale : Option String) :
    Cites (s.satelliteReferences locale) (match s.localization, locale with
      | some l, some locale => l.join s.relatedAlias s.related.primaryKey s.satelliteAlias locale
      | _, _ => []) := by
  unfold satelliteReferences
  cases s.localization with
  | none => exact .nil
  | some l =>
    cases locale with
    | none => exact .nil
    | some locale => exact l.join_cites _ _ _ _

theorem and_cites (name column : String) {test : Draft} (apart : ∀ step ∈ test, step ≠ .text ".") :
    Cites [.at name column] (.text " AND " :: qualified name column ++ test) := by
  have reference : Cites [.at name column] (.text " AND " :: qualified name column) :=
    .step (by simp) (qualified_cites name column)
  exact reference.followed apart

/-- The columns that a link compares. No keys compare none. -/
def linkReferences : Link → List Reference
  | .correlated baseAlias => [.at s.ownerColumn.1 s.ownerColumn.2, .at baseAlias s.relation.baseKey]
  | .keys [] => []
  | .keys (_ :: _) => [.at s.ownerColumn.1 s.ownerColumn.2]

/-- The columns of a scope, whatever the link to the owners is. -/
def tiedReferences (link : Link) : List Reference :=
  s.linkReferences link ++
    (match s.morphTest base with
      | some (table, column, _) => [.at table column]
      | none => []) ++
    if s.related.softDeletes then [.at s.relatedAlias "deleted_at"] else []

theorem link_cites (link : Link) : Cites (s.linkReferences link) (s.link link) := by
  have owner : Cites [.at s.ownerColumn.1 s.ownerColumn.2] s.owner := qualified_cites _ _
  cases link with
  | correlated baseAlias => exact owner.append (.step (by simp) (qualified_cites _ _))
  | keys values =>
    cases values with
    | nil => exact .step (by simp) .nil
    | cons value rest => exact (owner.append (.step (by simp) (.bindList _))).followed (by simp)

theorem scope_cites (link : Link) : Cites (s.tiedReferences base link) (s.scope base link) := by
  unfold scope tiedReferences
  refine ((s.link_cites link).append ?_).append ?_
  · cases s.morphTest base with
    | none => exact .nil
    | some test => exact and_cites _ _ (by simp)
  · split
    · exact and_cites _ _ (by simp)
    · exact .nil

theorem filter_cites (filter : Option Filter) :
    Cites (s.filterReferences filter) (match filter with
      | some f => if f.hasConditions then .text " AND (" :: f.conditions s.qualifier ++ [.text ")"] else []
      | none => []) := by
  cases filter with
  | none => exact .nil
  | some f =>
    dsimp only
    split
    · exact .step (by simp) ((f.conditions_cites s.qualifier).followed (by simp))
    · rename_i none
      rw [filterReferences, Option.map_some, Option.getD_some, f.mentions_eq_nil none]
      exact .nil

/-- The columns of the related rows, whatever the link to the owners is. -/
def rowReferences (locale : Option String) (link : Link) (filter : Option Filter) : List Reference :=
  s.tableReferences ++ s.satelliteReferences locale ++ s.tiedReferences base link ++
    s.filterReferences filter

theorem rows_cite (locale : Option String) (link : Link) (filter : Option Filter) :
    Cites (s.rowReferences base locale link filter) (s.body locale base filter link) := by
  have tables := s.tables_cites.append (s.satellite_cites locale)
  have scope : Cites (s.tiedReferences base link) (.text " WHERE " :: s.scope base link) :=
    .step (by simp) (s.scope_cites base link)
  exact (tables.append scope).append (s.filter_cites filter)

theorem body_cites (locale : Option String) (baseAlias : String) (filter : Option Filter) :
    Cites (s.bodyReferences base locale baseAlias filter)
      (s.body locale base filter (.correlated baseAlias)) :=
  s.rows_cite base locale (.correlated baseAlias) filter

/-- The satellite of a localized entity is joined to its table. -/
theorem join_within {l : Localization} (found : s.localization = some l) (locale : String)
    (filter : Option Filter) (link : Link) :
    l.join s.relatedAlias s.related.primaryKey s.satelliteAlias locale <:+:
      s.body (some locale) base filter link := by
  have joined : s.fromClause (some locale) =
      s.tables ++ l.join s.relatedAlias s.related.primaryKey s.satelliteAlias locale := by
    unfold fromClause
    rw [found]
  unfold body
  rw [joined, List.append_assoc]
  exact (List.suffix_append _ _).isInfix.trans (List.prefix_append _ _).isInfix

theorem orderClause_cites (terms : List OrderTerm) :
    Cites (orderReferences s.qualifier terms) (s.orderClause terms) := by
  unfold orderClause
  split
  · rename_i none
    rw [List.isEmpty_iff.mp none]
    exact .nil
  · exact .step (by simp) (orderDraft_cites _ _)

section Steps

variable {s : Source} {base : Entity} {ctx : Context} {name : String} {localized : Bool}
  (resolved : resolve ctx base name localized = .ok s)
include resolved

theorem andThen_cites {next : Source → Draft} {refs : List Reference} (cited : Cites refs (next s)) :
    Cites refs (andThen ctx base name localized next) := by
  unfold andThen
  rw [resolved, Draft.andThen]
  have consulted : ∀ step ∈ (if localized && ctx.locale.isSome then
      [Step.consult s.related.type s.localization] else []), step ≠ .text "." := by
    split <;> simp
  exact (Cites.plain consulted).append cited

theorem infix_andThen (next : Source → Draft) : next s <:+: andThen ctx base name localized next := by
  unfold andThen
  rw [resolved, Draft.andThen]
  exact (List.suffix_append _ _).isInfix

end Steps

end Source

namespace RelationRequest

variable {r : RelationRequest} {s : Source} {columns : Columns}
  (projected : r.projection s = .ok columns)
include projected

theorem withProjection_cites {next : Columns → Draft} {refs : List Reference}
    (cited : Cites refs (next columns)) : Cites refs (r.withProjection s next) := by
  unfold withProjection
  rw [projected, andThen]
  exact (Cites.plain (by simp)).append cited

theorem infix_withProjection (next : Columns → Draft) :
    next columns <:+: r.withProjection s next := by
  unfold withProjection
  rw [projected, andThen]
  exact (List.suffix_append _ _).isInfix

end RelationRequest

namespace Subquery

/-- The columns of an array's rows, and those of its order where the aggregate takes one. -/
def arrayReferences (d : Dialect) (row : List Reference) (q : Qualifier) (order : List OrderTerm) :
    List Reference :=
  row ++ if d.ordersAggregate then orderReferences q order else []

theorem forall_arrayReferences {P : Reference → Prop} (d : Dialect) {row : List Reference}
    {q : Qualifier} {order : List OrderTerm} (rows : ∀ ref ∈ row, P ref)
    (ordered : ∀ ref ∈ orderReferences q order, P ref) :
    ∀ ref ∈ arrayReferences d row q order, P ref := by
  refine List.forall_mem_append.mpr ⟨rows, ?_⟩
  split
  · exact ordered
  · exact List.forall_mem_nil _

theorem arrayOf_cites (d : Dialect) {refs : List Reference} {row : Draft} (cited : Cites refs row)
    (q : Qualifier) (order : List OrderTerm) :
    Cites (arrayReferences d refs q order) (arrayOf d row (orderDraft q order)) := by
  have opening : Cites [] [.text d.arrayAggregate.1] :=
    .plain (by simpa using d.arrayAggregate_apart.1)
  have closing : ∀ step ∈ [Step.text d.arrayAggregate.2, .text d.textCast], step ≠ .text "." := by
    simpa using ⟨d.arrayAggregate_apart.2, d.textCast_apart⟩
  refine ((opening.append cited).append ?_).followed closing
  cases order with
  | nil =>
    have none : (d.ordersAggregate && !(orderDraft q []).isEmpty) = false := Bool.and_false _
    rw [none, orderReferences, List.map_nil, ite_self]
    exact .nil
  | cons term rest =>
    have some : (orderDraft q (term :: rest)).isEmpty = false := by
      cases rest <;> simp [orderDraft, separated, OrderTerm.draft]
    rw [some, Bool.not_false, Bool.and_true]
    split
    · exact .step (by simp) (orderDraft_cites q _)
    · exact .nil

section Rows

variable (ctx : Context) (base : Entity) (s : Source) (columns : Columns) (filter : Option Filter)
  (baseAlias : String)

def singleReferences : List Reference :=
  columns.references s.relatedAlias s.satelliteAlias ++
    s.bodyReferences base ctx.locale baseAlias filter ++ orderReferences s.qualifier (orderOf filter)

def plainReferences : List Reference :=
  arrayReferences ctx.dialect (columns.references s.relatedAlias s.satelliteAlias) s.qualifier
      (orderOf filter) ++
    s.bodyReferences base ctx.locale baseAlias filter

/-- The rows of a derived table are read by its own alias. -/
def derivedReferences : List Reference :=
  arrayReferences ctx.dialect (columns.names.map (.at s.rowsAlias)) (.ofTable s.rowsAlias)
      ((projectedOrder (orderOf filter) columns).getD []) ++
    columns.references s.relatedAlias s.satelliteAlias ++
    s.bodyReferences base ctx.locale baseAlias filter ++ orderReferences s.qualifier (orderOf filter)

def collectionReferences : List Reference :=
  if (limitOf filter).isNone && ((orderOf filter).isEmpty || ctx.dialect.ordersAggregate) then
    plainReferences ctx base s columns filter baseAlias
  else derivedReferences ctx base s columns filter baseAlias

/-- All columns that the subquery of a relation refers to, in their order. -/
def references : Shape → List Reference
  | .one => singleReferences ctx base s columns filter baseAlias
  | .many => collectionReferences ctx base s columns filter baseAlias

/-- The rows of an object or an array are those of the source's tables. -/
theorem single_reads : s.body ctx.locale base filter (.correlated baseAlias) <:+:
    single ctx base s columns filter (.correlated baseAlias) := by
  refine ⟨.text "SELECT " :: columns.object ctx.dialect s.relatedAlias s.satelliteAlias ++
    [.text ctx.dialect.textCast], s.orderClause (orderOf filter) ++ [.text " LIMIT 1"], ?_⟩
  simp [single]

theorem collection_reads : s.body ctx.locale base filter (.correlated baseAlias) <:+:
    collection ctx base s columns filter (.correlated baseAlias) := by
  unfold collection
  split
  · exact (List.suffix_append _ _).isInfix
  · refine .trans ?_ ((List.prefix_append _ _).trans (List.prefix_append _ _)).isInfix
    exact (List.suffix_append _ _).isInfix.trans (List.prefix_append _ _).isInfix

/-- The SELECT of a relation. -/
def rows (link : Link) : Shape → Draft
  | .one => single ctx base s columns filter link
  | .many => collection ctx base s columns filter link

theorem rows_read (shape : Shape) : s.body ctx.locale base filter (.correlated baseAlias) <:+:
    rows ctx base s columns filter (.correlated baseAlias) shape := by
  cases shape with
  | one => exact single_reads ctx base s columns filter baseAlias
  | many => exact collection_reads ctx base s columns filter baseAlias

section Named

variable (named : ∀ x ∈ columns.names, x ≠ ".")
include named

theorem single_cites : Cites (singleReferences ctx base s columns filter baseAlias)
    (single ctx base s columns filter (.correlated baseAlias)) := by
  have object : Cites (columns.references s.relatedAlias s.satelliteAlias)
      (.text "SELECT " :: columns.object ctx.dialect s.relatedAlias s.satelliteAlias) :=
    .step (by simp) (columns.object_cites named _ _ _)
  have body : Cites (s.bodyReferences base ctx.locale baseAlias filter)
      (.text ctx.dialect.textCast :: s.body ctx.locale base filter (.correlated baseAlias)) :=
    .step (by simpa using ctx.dialect.textCast_apart) (s.body_cites base _ _ filter)
  exact ((object.append body).append (s.orderClause_cites _)).followed (by simp)

theorem plainCollection_cites : Cites (plainReferences ctx base s columns filter baseAlias)
    (plainCollection ctx base s columns filter (.correlated baseAlias)) := by
  have row := columns.object_cites named ctx.dialect s.relatedAlias s.satelliteAlias
  have array := arrayOf_cites ctx.dialect row s.qualifier (orderOf filter)
  have selected : Cites _ (.text "SELECT " :: _) := .step (by simp) array
  exact selected.append (s.body_cites base _ _ filter)

theorem derivedCollection_cites : Cites (derivedReferences ctx base s columns filter baseAlias)
    (derivedCollection ctx base s columns filter (.correlated baseAlias)) := by
  have row := columns.flatObject_cites named ctx.dialect s.rowsAlias
  have inner : Cites _ (.text " FROM (SELECT " :: _) :=
    .step (by simp) (columns.selectList_cites s.relatedAlias s.satelliteAlias)
  have body := s.body_cites base ctx.locale baseAlias filter
  have order := s.orderClause_cites (orderOf filter)
  unfold derivedReferences derivedCollection
  dsimp only
  -- The array's own order goes by the rows' alias, so it is told apart from the order of the rows.
  refine (Cites.followed ?_ ?_).followed (by simp)
  · refine (Cites.append (Cites.append (.step (by simp) ?_) inner) body).append order
    cases projectedOrder (orderOf filter) columns with
    | none => exact arrayOf_cites ctx.dialect row (.ofTable s.rowsAlias) []
    | some terms => exact arrayOf_cites ctx.dialect row (.ofTable s.rowsAlias) terms
  · cases limitOf filter with
    | none => simp
    | some n =>
      have apart : " LIMIT " ++ toString n ≠ "." := ctx.dialect.limitOffset_apart (some n) none
      exact fun step found same =>
        apart (Step.text.inj ((List.mem_singleton.mp found).symm.trans same))

theorem collection_cites : Cites (collectionReferences ctx base s columns filter baseAlias)
    (collection ctx base s columns filter (.correlated baseAlias)) := by
  unfold collection collectionReferences
  split
  · exact plainCollection_cites ctx base s columns filter baseAlias named
  · exact derivedCollection_cites ctx base s columns filter baseAlias named

theorem rows_cite (shape : Shape) : Cites (references ctx base s columns filter baseAlias shape)
    (rows ctx base s columns filter (.correlated baseAlias) shape) := by
  cases shape with
  | one => exact single_cites ctx base s columns filter baseAlias named
  | many => exact collection_cites ctx base s columns filter baseAlias named

end Named

end Rows

theorem aggregateCall_cites (d : Dialect) (s : Source) (a : AggregateRequest) :
    Cites [.at s.relatedAlias a.column] (aggregateCall d s a) := by
  have function : Cites [] [.text a.function.sql, .text "("] := by
    cases a.function <;> exact .plain (by simp [AggregateFunction.sql])
  have cast : ∀ step ∈ [Step.text ")",
      .text (if a.function.isNumeric then d.numericCast else "")], step ≠ .text "." := by
    have apart := d.numericCast_apart
    split <;> simp [apart]
  exact (function.append (qualified_cites s.relatedAlias a.column)).followed cast

section Requests

variable {ctx : Context} {base : Entity} {baseAlias : String}

/-- A complete subquery of a relation has a source, columns and a shape, and refers to what these say. -/
theorem relation_cites {r : RelationRequest}
    (complete : (relation ctx base baseAlias r).failure? = none) :
    ∃ s columns shape, Source.resolve ctx base r.name true = .ok s ∧ r.projection s = .ok columns ∧
      (∀ x ∈ columns.names, Identifier.fault? x = none) ∧
      Cites (references ctx base s columns r.filter baseAlias shape) (relation ctx base baseAlias r) ∧
      rows ctx base s columns r.filter (.correlated baseAlias) shape <:+: relation ctx base baseAlias r := by
  obtain ⟨s, columns, shape, resolved, projected, shaped, -, selected, -⟩ := relation_parts complete
  have named := Columns.named_of_complete selected
  obtain ⟨segments, cut, -⟩ := failure?_andThen.mp complete
  refine ⟨s, columns, shape, resolved, projected, Columns.valid_of_complete selected, ?_⟩
  unfold relation
  rw [cut, andThen]
  constructor
  · refine Source.andThen_cites resolved (RelationRequest.withProjection_cites projected ?_)
    rw [shaped, andThen]
    change Cites _ (.text "(" :: rows ctx base s columns r.filter (.correlated baseAlias) shape ++ _)
    exact .step (by simp) ((rows_cite ctx base s columns r.filter baseAlias named shape).followed (by simp))
  · refine .trans ?_ (Source.infix_andThen resolved _)
    refine .trans ?_ (RelationRequest.infix_withProjection projected _)
    rw [shaped, andThen]
    exact ⟨[.text "("], [.text ") AS ", .name r.label], rfl⟩

/-- What stands between the first and the last steps of a draft. -/
private theorem infix_between (opening : Step) (front body back : Draft) :
    body <:+: opening :: front ++ body ++ back :=
  ⟨opening :: front, back, rfl⟩

theorem count_cites {c : CountRequest} (complete : (count ctx base baseAlias c).failure? = none) :
    ∃ s, Source.resolve ctx base c.relation false = .ok s ∧
      Cites (s.bodyReferences base ctx.locale baseAlias c.filter) (count ctx base baseAlias c) ∧
      s.body ctx.locale base c.filter (.correlated baseAlias) <:+: count ctx base baseAlias c := by
  obtain ⟨s, resolved, -⟩ := count_parts complete
  refine ⟨s, resolved, Source.andThen_cites resolved ?_, .trans ?_ (Source.infix_andThen resolved _)⟩
  · exact .step (by simp) ((s.body_cites base ctx.locale baseAlias c.filter).followed (by simp))
  · exact infix_between _ [] _ _

theorem aggregate_cites {a : AggregateRequest}
    (complete : (aggregate ctx base baseAlias a).failure? = none) :
    ∃ s, Source.resolve ctx base a.relation false = .ok s ∧
      Cites (.at s.relatedAlias a.column :: s.bodyReferences base ctx.locale baseAlias a.filter)
        (aggregate ctx base baseAlias a) ∧
      s.body ctx.locale base a.filter (.correlated baseAlias) <:+: aggregate ctx base baseAlias a := by
  obtain ⟨s, resolved, -⟩ := aggregate_parts complete
  have named : ¬Text.isBlankText a.column = true := by
    intro blank
    rw [aggregate, if_pos blank] at complete
    exact absurd complete (by simp [Step.failure?])
  refine ⟨s, resolved, ?_⟩
  rw [aggregate, if_neg named]
  refine ⟨Source.andThen_cites resolved ?_, .trans ?_ (Source.infix_andThen resolved _)⟩
  · have selected : Cites _ (.text "(SELECT " :: _) := .step (by simp) (aggregateCall_cites ctx.dialect s a)
    exact (selected.append (s.body_cites base ctx.locale baseAlias a.filter)).followed (by simp)
  · exact infix_between _ _ _ _

theorem searchTerms_cite (d : Dialect) (pattern : String) {refs : List Reference}
    {columns : List Draft} (cited : List.Forall₂ (fun r draft => Cites [r] draft) refs columns) :
    List.Forall₂ (fun r draft => Cites [r] draft) refs (searchTerms d pattern columns) := by
  have operator : Step.text d.likeOperator ≠ .text "." := by
    cases d <;> simp [Dialect.likeOperator]
  unfold searchTerms
  rw [List.forall₂_map_right_iff]
  exact cited.imp fun r column here => here.followed (by simp [operator])

theorem search_cites {name : String} {columns : List String} {pattern : String}
    (complete : (search ctx base baseAlias name columns pattern).failure? = none) :
    ∃ s, Source.resolve ctx base name false = .ok s ∧
      Cites (s.bodyReferences base ctx.locale baseAlias none ++ columns.map (.at s.relatedAlias))
        (search ctx base baseAlias name columns pattern) ∧
      s.body ctx.locale base none (.correlated baseAlias) <:+:
        search ctx base baseAlias name columns pattern := by
  obtain ⟨s, resolved, -⟩ := Source.failure?_andThen.mp complete
  refine ⟨s, resolved, Source.andThen_cites resolved ?_, ?_⟩
  case refine_2 =>
    refine .trans ?_ (Source.infix_andThen resolved _)
    rw [List.append_assoc]
    exact infix_between _ [] _ _
  have each : List.Forall₂ (fun r draft => Cites [r] draft) (columns.map (.at s.relatedAlias))
      (columns.map (qualified s.relatedAlias)) := Cites.each fun x _ => qualified_cites _ x
  have terms := Cites.listed " OR " (by decide)
    (searchTerms_cite ctx.dialect pattern each)
  have rows : Cites _ (.text "EXISTS (SELECT 1" :: _) :=
    .step (by simp) (s.body_cites base ctx.locale baseAlias none)
  have tests : Cites _ (.text " AND (" :: _) := .step (by simp) terms
  exact (rows.append tests).followed (by simp)

end Requests

section Localized

variable {ctx : Context} {base : Entity} {s : Source} {columns : Columns} {filter : Option Filter}
  {baseAlias : String} {l : Localization} (found : s.localization = some l)
include found

theorem through_localized (column : String) :
    (Reference.through s.qualifier column).Localized l.fields [s.satelliteAlias, s.rowsAlias] := by
  intro x field same undotted
  obtain rfl := Option.some.inj same
  have fields : s.localizedFields = l.fields := by rw [Source.localizedFields, found]; rfl
  refine ⟨s.satelliteAlias, List.mem_cons_self, ?_⟩
  exact Qualifier.column_localized undotted (fields ▸ field) _ _

theorem order_localized (terms : List OrderTerm) : ∀ ref ∈ orderReferences s.qualifier terms,
    ref.Localized l.fields [s.satelliteAlias, s.rowsAlias] := by
  intro ref cited
  obtain ⟨term, -, rfl⟩ := List.mem_map.mp cited
  exact through_localized found term.column

theorem body_localized : ∀ ref ∈ s.bodyReferences base ctx.locale baseAlias filter,
    ref ∈ s.keyReferences base ctx.locale baseAlias ∨
      ref.Localized l.fields [s.satelliteAlias, s.rowsAlias] := by
  intro ref cited
  refine (List.mem_append.mp cited).imp_right fun mentioned => ?_
  obtain ⟨column, -, rfl⟩ := List.mem_map.mp mentioned
  exact through_localized found column

variable (own : ∀ x ∈ columns.main, x ∉ l.fields)
include own

omit found in
theorem columns_localized : ∀ ref ∈ columns.references s.relatedAlias s.satelliteAlias,
    ref.Localized l.fields [s.satelliteAlias, s.rowsAlias] := by
  intro ref cited x field same
  rcases List.mem_append.mp cited with main | localized
  · obtain ⟨column, known, rfl⟩ := List.mem_map.mp main
    obtain rfl := Option.some.inj same
    exact absurd field (own column known)
  · obtain ⟨column, -, rfl⟩ := List.mem_map.mp localized
    exact List.mem_cons_self

omit found own in
/-- The rows of a derived table are localized already. -/
theorem rows_localized (names : List String) (order : List OrderTerm) :
    ∀ ref ∈ arrayReferences ctx.dialect (names.map (.at s.rowsAlias)) (.ofTable s.rowsAlias) order,
      ref.Localized l.fields [s.satelliteAlias, s.rowsAlias] := by
  have known : s.rowsAlias ∈ [s.satelliteAlias, s.rowsAlias] :=
    List.mem_cons_of_mem _ List.mem_cons_self
  apply forall_arrayReferences
  · intro ref cited x field same
    obtain ⟨column, -, rfl⟩ := List.mem_map.mp cited
    exact known
  · intro ref cited x field same
    obtain ⟨term, -, rfl⟩ := List.mem_map.mp cited
    exact fun undotted => ⟨s.rowsAlias, known, Qualifier.column_ofTable undotted _⟩

/-- Apart from keys the subquery of a relation reads all localized columns from the satellite or, around a
derived table, from its rows. -/
theorem references_localized (shape : Shape) :
    ∀ ref ∈ references ctx base s columns filter baseAlias shape,
      ref ∈ s.keyReferences base ctx.locale baseAlias ∨
        ref.Localized l.fields [s.satelliteAlias, s.rowsAlias] := by
  have body : ∀ ref ∈ s.bodyReferences base ctx.locale baseAlias filter,
      ref ∈ s.keyReferences base ctx.locale baseAlias ∨
        ref.Localized l.fields [s.satelliteAlias, s.rowsAlias] := body_localized found
  have selected := columns_localized (s := s) own
  have ordered := order_localized found (orderOf filter)
  cases shape with
  | one =>
    have both := List.forall_mem_append.mpr ⟨fun ref cited => .inr (selected ref cited), body⟩
    exact List.forall_mem_append.mpr ⟨both, fun ref cited => .inr (ordered ref cited)⟩
  | many =>
    change ∀ ref ∈ collectionReferences ctx base s columns filter baseAlias, _
    unfold collectionReferences
    split
    · have array := forall_arrayReferences ctx.dialect selected ordered
      exact List.forall_mem_append.mpr ⟨fun ref cited => .inr (array ref cited), body⟩
    · have rows : ∀ ref ∈ arrayReferences ctx.dialect (columns.names.map (.at s.rowsAlias))
          (.ofTable s.rowsAlias) ((projectedOrder (orderOf filter) columns).getD []),
          ref.Localized l.fields [s.satelliteAlias, s.rowsAlias] := rows_localized _ _
      have inner := List.forall_mem_append.mpr ⟨rows, selected⟩
      have both := List.forall_mem_append.mpr ⟨fun ref cited => .inr (inner ref cited), body⟩
      exact List.forall_mem_append.mpr ⟨both, fun ref cited => .inr (ordered ref cited)⟩

end Localized

section Unlocalized

variable {ctx : Context} {base : Entity} {s : Source} {filter : Option Filter} {baseAlias : String}
  (none : s.localization = none)
include none

/-- Without a satellite a source reads all columns that a filter mentions from the related table. -/
theorem body_unlocalized : ∀ ref ∈ s.bodyReferences base ctx.locale baseAlias filter,
    ref ∈ s.keyReferences base ctx.locale baseAlias ∨ ref.ReadsFrom [s.relatedAlias] := by
  have plain : s.qualifier = .ofTable s.relatedAlias := by
    rw [Source.qualifier, Source.localizedFields, none]
    rfl
  intro ref cited
  refine (List.mem_append.mp cited).imp_right fun mentioned => ?_
  obtain ⟨column, -, rfl⟩ := List.mem_map.mp mentioned
  intro undotted
  rw [plain]
  exact ⟨s.relatedAlias, List.mem_singleton_self _, Qualifier.column_ofTable undotted _⟩

end Unlocalized

section Statements

variable {ctx : Context} {base : Entity} {baseAlias : String}

/-- The subquery of a relation joins the satellite of a localized entity, and apart from keys it reads the
localized columns from there or from its own rows. -/
def RelationLocalized (ctx : Context) (base : Entity) (baseAlias locale : String) (r : RelationRequest) :
    Prop :=
  ∃ s columns shape, Source.resolve ctx base r.name true = .ok s ∧
    Cites (references ctx base s columns r.filter baseAlias shape) (relation ctx base baseAlias r) ∧
    ∀ l, s.related.localization? = some l → ctx.memo.localization? s.related = some l →
      l.join s.relatedAlias s.related.primaryKey s.satelliteAlias locale <:+:
        relation ctx base baseAlias r ∧
      ∀ ref ∈ references ctx base s columns r.filter baseAlias shape,
        ref ∈ s.keyReferences base ctx.locale baseAlias ∨
          ref.Localized l.fields [s.satelliteAlias, s.rowsAlias]

/-- A subquery looks for no satellite, and apart from keys it reads all columns from the related table. -/
def Unlocalized (ctx : Context) (base : Entity) (baseAlias name : String)
    (refs : Source → List Reference) (draft : Draft) : Prop :=
  ∃ s, Source.resolve ctx base name false = .ok s ∧ s.localization = none ∧ Cites (refs s) draft ∧
    ∀ ref ∈ refs s, ref ∈ s.keyReferences base ctx.locale baseAlias ∨ ref.ReadsFrom [s.relatedAlias]

theorem relation_localized {r : RelationRequest} {locale : String} (inLocale : ctx.locale = some locale)
    (complete : (relation ctx base baseAlias r).failure? = none) :
    RelationLocalized ctx base baseAlias locale r := by
  obtain ⟨s, columns, shape, resolved, projected, -, cites, selects⟩ := relation_cites complete
  refine ⟨s, columns, shape, resolved, cites, fun l declared remembered => ?_⟩
  obtain ⟨-, -, -, wanted⟩ := Source.resolve_eq_ok_iff.mp resolved
  have found : s.localization = some l := by
    rw [wanted, Source.localization?, inLocale]
    exact remembered
  have own : ∀ x ∈ columns.main, x ∉ l.fields := by
    rw [Entity.fields_of_localization? declared]
    unfold RelationRequest.projection at projected
    split at projected
    · exact Columns.main_of_resolve projected
    · exact absurd projected (by simp)
  refine ⟨.trans ?_ ((rows_read ctx base s columns r.filter baseAlias shape).trans selects),
    references_localized found own shape⟩
  rw [inLocale]
  exact s.join_within base found locale r.filter _

theorem localization_eq_none {name : String} {s : Source}
    (resolved : Source.resolve ctx base name false = .ok s) : s.localization = none :=
  (Source.resolve_eq_ok_iff.mp resolved).2.2.2

theorem count_unlocalized {c : CountRequest} (complete : (count ctx base baseAlias c).failure? = none) :
    Unlocalized ctx base baseAlias c.relation
      (fun s => s.bodyReferences base ctx.locale baseAlias c.filter) (count ctx base baseAlias c) := by
  obtain ⟨s, resolved, cites, -⟩ := count_cites complete
  have none := localization_eq_none resolved
  exact ⟨s, resolved, none, cites, body_unlocalized none⟩

theorem aggregate_unlocalized {a : AggregateRequest}
    (complete : (aggregate ctx base baseAlias a).failure? = none) :
    Unlocalized ctx base baseAlias a.relation
      (fun s => .at s.relatedAlias a.column :: s.bodyReferences base ctx.locale baseAlias a.filter)
      (aggregate ctx base baseAlias a) := by
  obtain ⟨s, resolved, cites, -⟩ := aggregate_cites complete
  have none := localization_eq_none resolved
  refine ⟨s, resolved, none, cites, List.forall_mem_cons.mpr ⟨?_, body_unlocalized none⟩⟩
  exact .inr (List.mem_singleton_self s.relatedAlias)

theorem search_unlocalized {name : String} {columns : List String} {pattern : String}
    (complete : (search ctx base baseAlias name columns pattern).failure? = none) :
    Unlocalized ctx base baseAlias name
      (fun s => s.bodyReferences base ctx.locale baseAlias none ++ columns.map (.at s.relatedAlias))
      (search ctx base baseAlias name columns pattern) := by
  obtain ⟨s, resolved, cites, -⟩ := search_cites complete
  have none := localization_eq_none resolved
  refine ⟨s, resolved, none, cites, List.forall_mem_append.mpr ⟨body_unlocalized none, ?_⟩⟩
  intro ref cited
  obtain ⟨column, -, rfl⟩ := List.mem_map.mp cited
  exact .inr (List.mem_singleton_self s.relatedAlias)

end Statements

end Subquery
end EagerLoad
