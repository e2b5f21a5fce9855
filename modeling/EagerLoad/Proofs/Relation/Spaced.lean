import EagerLoad.Proofs.Filter.Spaced
import EagerLoad.Relation.Subquery

/-! # Subqueries without adjacent quotes

All that a subquery is put together from begins with a word, but for lists of columns and tests, which
follow one. -/
namespace EagerLoad

open Sql Sql.Draft

theorem Localization.join_spaced (l : Localization)
    (ownerAlias ownerKey satelliteAlias locale : String) :
    Spaced true (l.join ownerAlias ownerKey satelliteAlias locale) := by
  have owner : Spaced true
      (.text " LEFT JOIN " :: .name l.satellite :: .text " AS " :: .name satelliteAlias ::
        .text " ON " :: qualified ownerAlias ownerKey) :=
    .word (by decide) (.name _ (.word (by decide) (.name _ (.word (by decide) (.qualified _ _)))))
  refine ((owner.append ?_).append ?_).append ?_
  · exact .word (by decide) (.qualified satelliteAlias l.foreignKey)
  · exact .word (by decide) (.qualified satelliteAlias l.localeColumn)
  · exact .word (by decide) (.bind _ .nil)

namespace Dialect

variable (d : Dialect)

theorem objectFunction_plain : beginsPlain d.objectFunction = true := by
  cases d <;> simp [objectFunction, beginsPlain]

theorem textCast_plain : d.textCast = "" ∨ beginsPlain d.textCast = true := by
  cases d <;> first | exact .inl rfl | exact .inr rfl

theorem numericCast_plain : d.numericCast = "" ∨ beginsPlain d.numericCast = true := by
  cases d <;> first | exact .inl rfl | exact .inr rfl

theorem likeOperator_plain : beginsPlain d.likeOperator = true := by
  cases d <;> simp [likeOperator, beginsPlain]

theorem arrayAggregate_plain :
    beginsPlain d.arrayAggregate.1 = true ∧ beginsPlain d.arrayAggregate.2 = true := by
  unfold arrayAggregate
  split
  · decide
  · decide
  · split <;> decide

end Dialect

namespace Columns

theorem pair_spaced (source column : String) : Spaced false (pair source column) := by
  have names : Spaced false (.text "', " :: qualified source column) :=
    ⟨by simp, .qualified source column⟩
  have contents : Spaced false (.text column :: .text "', " :: qualified source column) := by
    by_cases empty : column = ""
    · exact .silent (by simp [Step.quotes?, empty]) names
    · rw [Spaced, Step.quotes?, if_neg empty]
      exact ⟨by simp, names⟩
  exact ⟨by simp, contents⟩

theorem object_spaced (c : Columns) (d : Dialect) (mainAlias satelliteAlias : String) :
    Spaced true (c.object d mainAlias satelliteAlias) := by
  refine .append (.word d.objectFunction_plain (.word (by decide) ?_)) (.word (by decide) .nil)
  refine Spaced.separated (by decide) fun draft found => ?_
  obtain found | found := List.mem_append.mp found <;> obtain ⟨column, -, rfl⟩ := List.mem_map.mp found
  · exact pair_spaced mainAlias column
  · exact pair_spaced satelliteAlias column

theorem flatObject_spaced (c : Columns) (d : Dialect) (source : String) :
    Spaced true (c.flatObject d source) := by
  refine .append (.word d.objectFunction_plain (.word (by decide) ?_)) (.word (by decide) .nil)
  refine Spaced.separated (by decide) fun draft found => ?_
  obtain ⟨column, -, rfl⟩ := List.mem_map.mp found
  exact pair_spaced source column

theorem items_spaced (c : Columns) (mainAlias satelliteAlias : String) :
    ∀ draft ∈ c.items mainAlias satelliteAlias, Spaced false draft := by
  intro draft found
  obtain found | found := List.mem_append.mp found <;> obtain ⟨column, -, rfl⟩ := List.mem_map.mp found
  · exact .qualified mainAlias column
  · exact (Spaced.qualified _ _).append (.word (by decide) (.name column .nil))

theorem selectList_spaced (c : Columns) (mainAlias satelliteAlias : String) :
    Spaced false (c.selectList mainAlias satelliteAlias) :=
  Spaced.separated (by decide) (c.items_spaced mainAlias satelliteAlias)

end Columns

namespace Source

variable (s : Source) (base : Entity)

theorem tableAs_spaced {keyword : String} (plain : beginsPlain keyword = true) (table name : String) :
    Spaced true (tableAs keyword table name) :=
  .word plain (.name table (.word (by decide) (.name name .nil)))

theorem tables_spaced : Spaced true s.tables := by
  have both (table name table' name' : String) (left right : Draft) (hl : Spaced false left)
      (hr : Spaced false right) :
      Spaced true (tableAs " FROM " table name ++ tableAs " INNER JOIN " table' name' ++
        .text " ON " :: left ++ .text " = " :: right) :=
    (((tableAs_spaced (by decide) _ _).append (tableAs_spaced (by decide) _ _)).append
      (.word (by decide) hl)).append (.word (by decide) hr)
  unfold tables
  split
  · exact both _ _ _ _ _ _ (.qualified _ _) (.qualified _ _)
  · exact both _ _ _ _ _ _ (.qualified _ _) (.qualified _ _)
  · exact tableAs_spaced (by decide) _ _

theorem fromClause_spaced (locale : Option String) : Spaced true (s.fromClause locale) := by
  refine s.tables_spaced.append ?_
  split
  · exact Localization.join_spaced _ _ _ _ _
  · exact .nil

theorem scope_spaced (link : Link) : Spaced false (s.scope base link) := by
  have tie : Spaced false (s.link link) := by
    unfold Source.link
    split
    · exact (Spaced.qualified _ _).append (.word (by decide) (.qualified _ _))
    · exact .word (by decide) .nil
    · rw [List.append_assoc]
      exact (Spaced.qualified _ _).append
        (.word (by decide) ((Spaced.bindList _).append (.word (by decide) .nil)))
  refine (tie.append ?_).append ?_
  · split
    · exact .word (by decide) ((Spaced.qualified _ _).append (.word (by decide) (.bind _ .nil)))
    · exact .nil
  · split
    · exact .word (by decide) ((Spaced.qualified _ _).append (.word (by decide) .nil))
    · exact .nil

theorem body_spaced (locale : Option String) (filter : Option Filter) (link : Link) :
    Spaced true (s.body locale base filter link) := by
  refine ((s.fromClause_spaced locale).append (.word (by decide) (s.scope_spaced base link))).append ?_
  cases filter with
  | none => exact .nil
  | some f =>
    dsimp only
    split
    · exact .word (by decide)
        ((clausesDraft_spaced s.qualifier f.clauses).append (.word (by decide) .nil))
    · exact .nil

theorem orderClause_spaced (terms : List OrderTerm) : Spaced true (s.orderClause terms) := by
  unfold orderClause
  split
  · exact .nil
  · exact .word (by decide) (orderDraft_spaced _ _)

end Source

namespace Subquery

theorem arrayOf_spaced (d : Dialect) {row order : Draft} (hr : Spaced true row)
    (ho : Spaced false order) : Spaced true (arrayOf d row order) := by
  obtain ⟨opening, closing⟩ := d.arrayAggregate_plain
  refine ((Spaced.append (.word opening .nil) hr).append ?_).append
    (.word closing ((Spaced.optional d.textCast_plain .nil).loosen false))
  split
  · exact .word (by decide) ho
  · exact .nil

section Rows

variable (ctx : Context) (base : Entity) (s : Source) (columns : Columns) (filter : Option Filter)
  (link : Link)

theorem single_spaced : Spaced true (single ctx base s columns filter link) := by
  have row := (columns.object_spaced ctx.dialect s.relatedAlias s.satelliteAlias).append
    (.optional ctx.dialect.textCast_plain (s.body_spaced base ctx.locale filter link))
  have whole : Spaced true (.text "SELECT " :: (columns.object ctx.dialect s.relatedAlias
      s.satelliteAlias ++ .text ctx.dialect.textCast :: s.body ctx.locale base filter link)) :=
    .word (by decide) (row.loosen false)
  exact (whole.append (s.orderClause_spaced _)).append (.word (by decide) .nil)

theorem plainCollection_spaced : Spaced true (plainCollection ctx base s columns filter link) := by
  have row := arrayOf_spaced ctx.dialect
    (columns.object_spaced ctx.dialect s.relatedAlias s.satelliteAlias)
    (orderDraft_spaced s.qualifier (orderOf filter))
  exact .word (by decide) ((row.append (s.body_spaced base _ _ _)).loosen false)

theorem derivedCollection_spaced : Spaced true (derivedCollection ctx base s columns filter link) := by
  have row {order : Draft} (h : Spaced false order) :=
    arrayOf_spaced ctx.dialect (columns.flatObject_spaced ctx.dialect s.rowsAlias) h
  refine ((((Spaced.append (.word (by decide) ((row ?_).loosen false)) ?_).append
    (s.body_spaced base _ _ _)).append (s.orderClause_spaced _)).append ?_).append ?_
  · split
    · exact orderDraft_spaced _ _
    · exact .nil
  · exact .word (by decide) (columns.selectList_spaced _ _)
  · split
    · exact .word (by simp [beginsPlain]) .nil
    · exact .nil
  · exact .word (by decide) (.name _ .nil)

theorem collection_spaced : Spaced true (collection ctx base s columns filter link) := by
  unfold collection
  split
  · exact plainCollection_spaced ctx base s columns filter link
  · exact derivedCollection_spaced ctx base s columns filter link

end Rows

section Requests

variable (ctx : Context) (base : Entity) (baseAlias : String)

theorem andThen_spaced (name : String) (localized : Bool) {next : Source → Draft}
    (h : ∀ s, Spaced true (next s)) : Spaced true (Source.andThen ctx base name localized next) := by
  refine Spaced.andThen fun s _ => Spaced.append ?_ (h s)
  split
  · exact .silent rfl .nil
  · exact .nil

theorem relation_spaced (r : RelationRequest) : Spaced true (relation ctx base baseAlias r) := by
  refine Spaced.andThen fun _ _ => andThen_spaced ctx base _ _ fun s => ?_
  refine Spaced.append ?_ (Spaced.andThen fun columns _ => Spaced.andThen fun shape _ => ?_)
  · unfold RelationRequest.projectionNotices
    split
    · split
      · exact .silent rfl .nil
      · exact .nil
    · exact .nil
  · refine Spaced.append (.word (by decide) ?_) (.word (by decide) (.name _ .nil))
    cases shape with
    | one => exact (single_spaced ctx base s columns r.filter _).loosen false
    | many => exact (collection_spaced ctx base s columns r.filter _).loosen false

theorem count_spaced (c : CountRequest) : Spaced true (count ctx base baseAlias c) := by
  refine andThen_spaced ctx base _ _ fun s => ?_
  exact Spaced.append (.word (by decide) ((s.body_spaced base _ _ _).loosen false))
    (.word (by decide) (.name _ .nil))

theorem aggregateCall_spaced (d : Dialect) (s : Source) (a : AggregateRequest) :
    Spaced true (aggregateCall d s a) := by
  have function : beginsPlain a.function.sql = true := by cases a.function <;> decide
  have cast : Spaced true [.text (if a.function.isNumeric then d.numericCast else "")] := by
    refine .optional ?_ .nil
    split
    · exact d.numericCast_plain
    · exact .inl rfl
  exact Spaced.append (.word function (.word (by decide) (.qualified _ _)))
    (.word (by decide) (cast.loosen false))

theorem aggregate_spaced (a : AggregateRequest) : Spaced true (aggregate ctx base baseAlias a) := by
  unfold aggregate
  split
  · exact .silent rfl .nil
  · refine andThen_spaced ctx base _ _ fun s => ?_
    have call : Spaced true (.text "(SELECT " :: aggregateCall ctx.dialect s a) :=
      .word (by decide) ((aggregateCall_spaced ctx.dialect s a).loosen false)
    exact (call.append (s.body_spaced base _ _ _)).append (.word (by decide) (.name _ .nil))

theorem searchTerms_spaced (d : Dialect) (pattern : String) (columns : List Draft)
    (h : ∀ column ∈ columns, Spaced false column) :
    ∀ draft ∈ searchTerms d pattern columns, Spaced false draft := by
  intro draft found
  obtain ⟨column, known, rfl⟩ := List.mem_map.mp found
  exact (h column known).append
    (.word (by decide) (.word d.likeOperator_plain (.word (by decide) (.bind _ .nil))))

theorem search_spaced (name : String) (columns : List String) (pattern : String) :
    Spaced true (search ctx base baseAlias name columns pattern) := by
  refine andThen_spaced ctx base _ _ fun s => ?_
  have terms : Spaced false (separated " OR "
      (searchTerms ctx.dialect pattern (columns.map (qualified s.relatedAlias)))) := by
    refine Spaced.separated (by decide) (searchTerms_spaced _ _ _ fun column found => ?_)
    obtain ⟨name, -, rfl⟩ := List.mem_map.mp found
    exact .qualified _ _
  have body : Spaced true (.text "EXISTS (SELECT 1" ::
      s.body ctx.locale base none (.correlated baseAlias)) :=
    .word (by decide) ((s.body_spaced base _ none _).loosen false)
  exact (body.append (.word (by decide) terms)).append (.word (by decide) .nil)

end Requests

end Subquery
end EagerLoad
