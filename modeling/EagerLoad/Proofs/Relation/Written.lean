import EagerLoad.Proofs.Filter.Written
import EagerLoad.Proofs.Relation.Source
import EagerLoad.Relation.Subquery

/-! # What subqueries are written from

Apart from the raw texts of its filter a subquery is written from the vocabulary. -/
namespace EagerLoad

open Sql Sql.Draft

variable {allowed : Allowed}

def rawsOf (filter : Option Filter) : List String := (filter.map Filter.raws).getD []

/-- Whether the localizations of the registered entities may be looked up, which only happens in a
locale. -/
def Context.Consults (ctx : Context) (allowed : Allowed) : Prop :=
  ctx.locale.isSome = true → ∀ type e, ctx.registry.get? type = some e →
    allowed.consult e.type (ctx.memo.localization? e)

theorem Localization.join_written (l : Localization)
    (ownerAlias ownerKey satelliteAlias locale : String) :
    Written allowed (l.join ownerAlias ownerKey satelliteAlias locale) := by
  have column (table name : String) : Written allowed (qualified table name) :=
    Written.qualified table name
  have tables : Written allowed [.text " LEFT JOIN ", .name l.satellite, .text " AS ",
      .name satelliteAlias, .text " ON "] :=
    .word (by decide) (.name _ (.word (by decide) (.name _ (.word (by decide) .nil))))
  refine (((tables.append (column _ _)).append ?_).append ?_).append ?_
  · exact .word (by decide) (column satelliteAlias l.foreignKey)
  · exact .word (by decide) (column satelliteAlias l.localeColumn)
  · exact .word (by decide) (.bind _ .nil)

namespace Dialect

variable (d : Dialect)

theorem objectFunction_known : d.objectFunction ∈ vocabulary := by
  cases d <;> simp [objectFunction, vocabulary]

theorem textCast_known : d.textCast ∈ vocabulary := by
  cases d <;> simp [textCast, vocabulary]

theorem numericCast_known : d.numericCast ∈ vocabulary := by
  cases d <;> simp [numericCast, vocabulary]

theorem likeOperator_known : d.likeOperator ∈ vocabulary := by
  cases d <;> simp [likeOperator, vocabulary]

theorem arrayAggregate_known :
    d.arrayAggregate.1 ∈ vocabulary ∧ d.arrayAggregate.2 ∈ vocabulary := by
  unfold arrayAggregate
  split
  · decide
  · decide
  · split <;> decide

end Dialect

namespace Columns

theorem object_written (c : Columns) (d : Dialect) (mainAlias satelliteAlias : String) :
    Written allowed (c.object d mainAlias satelliteAlias) := by
  refine .append (.word d.objectFunction_known (.word (by decide) ?_)) (.word (by decide) .nil)
  refine Written.separated (by decide) fun draft found => ?_
  rw [List.mem_append] at found
  obtain found | found := found <;> obtain ⟨column, _, rfl⟩ := List.mem_map.mp found
  · exact .pair mainAlias column .nil
  · exact .pair satelliteAlias column .nil

theorem flatObject_written (c : Columns) (d : Dialect) (source : String) :
    Written allowed (c.flatObject d source) := by
  refine .append (.word d.objectFunction_known (.word (by decide) ?_)) (.word (by decide) .nil)
  refine Written.separated (by decide) fun draft found => ?_
  obtain ⟨column, _, rfl⟩ := List.mem_map.mp found
  exact .pair source column .nil

theorem items_written (c : Columns) (mainAlias satelliteAlias : String) :
    ∀ draft ∈ c.items mainAlias satelliteAlias, Written allowed draft := by
  intro draft found
  rw [items, List.mem_append] at found
  obtain found | found := found <;> obtain ⟨column, _, rfl⟩ := List.mem_map.mp found
  · exact Written.qualified _ _
  · exact (Written.qualified _ _).append (.word (by decide) (.name column .nil))

theorem selectList_written (c : Columns) (mainAlias satelliteAlias : String) :
    Written allowed (c.selectList mainAlias satelliteAlias) :=
  Written.separated (by decide) (c.items_written mainAlias satelliteAlias)

end Columns

namespace Source

variable (s : Source) (base : Entity)

theorem tableAs_written {keyword : String} (known : keyword ∈ vocabulary) (table name : String) :
    Written allowed (tableAs keyword table name) :=
  .word known (.name table (.word (by decide) (.name name .nil)))

theorem tables_written : Written allowed s.tables := by
  unfold tables
  split
  · refine (((tableAs_written (by decide) _ _).append (tableAs_written (by decide) _ _)).append
      (.word (by decide) (Written.qualified _ _))).append ?_
    exact .word (by decide) (Written.qualified _ _)
  · refine (((tableAs_written (by decide) _ _).append (tableAs_written (by decide) _ _)).append
      (.word (by decide) (Written.qualified _ _))).append ?_
    exact .word (by decide) (Written.qualified _ _)
  · exact tableAs_written (by decide) _ _

theorem fromClause_written (locale : Option String) : Written allowed (s.fromClause locale) := by
  refine s.tables_written.append ?_
  split
  · exact Localization.join_written _ _ _ _ _
  · exact .nil

/-- No keys are a constant test, so a tie is written after a word. -/
theorem scope_written (link : Link) (lead : String) (follows : lead ∈ leads) :
    Written allowed (.text lead :: s.scope base link) := by
  have known := word_of_lead lead follows
  have tie : Written allowed (.text lead :: s.link link) := by
    unfold Source.link
    split
    · exact .word known ((Written.qualified _ _).append
        (.word (by decide) (Written.qualified _ _)))
    · exact .constant follows (by decide) .nil
    · exact .word known (((Written.qualified _ _).append
        (.word (by decide) (Written.bindList _))).append (.word (by decide) .nil))
  refine (tie.append ?_).append ?_
  · split
    · exact (Written.word (by decide) (Written.qualified _ _)).append
        (.word (by decide) (.bind _ .nil))
    · exact .nil
  · split
    · exact (Written.word (by decide) (Written.qualified _ _)).append
        (.word (by decide) .nil)
    · exact .nil

theorem body_written (locale : Option String) (filter : Option Filter) (link : Link)
    (h : ∀ sql ∈ rawsOf filter, allowed.raw sql) :
    Written allowed (s.body locale base filter link) := by
  refine ((s.fromClause_written locale).append
    (s.scope_written base link " WHERE " (by decide))).append ?_
  cases filter with
  | none => exact .nil
  | some f =>
    dsimp only
    split
    · exact (clausesDraft_written s.qualifier f.clauses h " AND (" (by decide)).append
        (.word (by decide) .nil)
    · exact .nil

theorem orderClause_written (terms : List OrderTerm) : Written allowed (s.orderClause terms) := by
  unfold orderClause
  split
  · exact .nil
  · exact .word (by decide) (orderDraft_written _ _)

end Source

namespace Subquery

theorem arrayOf_written (d : Dialect) {row order : Draft} (hr : Written allowed row)
    (ho : Written allowed order) : Written allowed (arrayOf d row order) := by
  obtain ⟨opening, closing⟩ := d.arrayAggregate_known
  refine ((Written.append (.word opening .nil) hr).append ?_).append
    (.word closing (.word d.textCast_known .nil))
  split
  · exact .word (by decide) ho
  · exact .nil

section Rows

variable (ctx : Context) (base : Entity) (s : Source) (columns : Columns) (filter : Option Filter)
  (link : Link) (h : ∀ sql ∈ rawsOf filter, allowed.raw sql)
include h

theorem single_written : Written allowed (single ctx base s columns filter link) := by
  refine (((Written.append (.word (by decide) (columns.object_written _ _ _)) ?_).append
    (s.orderClause_written _))).append (.word (by decide) .nil)
  exact .word ctx.dialect.textCast_known (s.body_written base _ _ _ h)

theorem plainCollection_written :
    Written allowed (plainCollection ctx base s columns filter link) :=
  .append (.word (by decide) (arrayOf_written _ (columns.object_written _ _ _)
    (orderDraft_written _ _))) (s.body_written base _ _ _ h)

theorem derivedCollection_written :
    Written allowed (derivedCollection ctx base s columns filter link) := by
  refine (((((Written.word (by decide) (arrayOf_written _ (columns.flatObject_written _ _)
    ?_)).append (.word (by decide) (columns.selectList_written _ _))).append
    (s.body_written base _ _ _ h)).append (s.orderClause_written _)).append ?_).append ?_
  · split
    · exact orderDraft_written _ _
    · exact .nil
  · split
    · exact .limit ctx.dialect (some _) none .nil
    · exact .nil
  · exact .word (by decide) (.name _ .nil)

theorem collection_written : Written allowed (collection ctx base s columns filter link) := by
  unfold collection
  split
  · exact plainCollection_written ctx base s columns filter link h
  · exact derivedCollection_written ctx base s columns filter link h

end Rows

section Requests

variable (ctx : Context) (base : Entity) (baseAlias : String) (looked : ctx.Consults allowed)
include looked

theorem andThen_written (name : String) (localized : Bool) {next : Source → Draft}
    (h : ∀ s, Written allowed (next s)) :
    Written allowed (Source.andThen ctx base name localized next) := by
  refine Written.andThen fun s resolved => Written.append ?_ (h s)
  obtain ⟨-, registered, -, found⟩ := Source.resolve_eq_ok_iff.mp resolved
  split
  · rename_i wanted
    have consulted := looked ((Bool.and_eq_true _ _).mp wanted).2 _ _ registered
    rw [found, Source.localization?, if_pos wanted]
    exact .consult consulted .nil
  · exact .nil

theorem relation_written (r : RelationRequest) (h : ∀ sql ∈ rawsOf r.filter, allowed.raw sql) :
    Written allowed (relation ctx base baseAlias r) := by
  refine Written.andThen fun _ _ => andThen_written ctx base looked _ _ fun s => ?_
  refine Written.append ?_ (Written.andThen fun columns _ => Written.andThen fun shape _ => ?_)
  · unfold RelationRequest.projectionNotices
    split
    · split
      · exact .silent rfl .nil
      · exact .nil
    · exact .nil
  · refine Written.append (.word (by decide) ?_) (.word (by decide) (.name _ .nil))
    cases shape with
    | one => exact single_written ctx base s columns r.filter _ h
    | many => exact collection_written ctx base s columns r.filter _ h

theorem count_written (c : CountRequest) (h : ∀ sql ∈ rawsOf c.filter, allowed.raw sql) :
    Written allowed (count ctx base baseAlias c) := by
  refine andThen_written ctx base looked _ _ fun s => ?_
  exact Written.append (.word (by decide) (s.body_written base _ _ _ h))
    (.word (by decide) (.name _ .nil))

omit looked in
theorem aggregateCall_written (d : Dialect) (s : Source) (a : AggregateRequest) :
    Written allowed (aggregateCall d s a) := by
  have function : a.function.sql ∈ vocabulary := by cases a.function <;> decide
  refine Written.append (.append (.word function (.word (by decide) .nil))
    (Written.qualified _ _)) (.word (by decide) (.word ?_ .nil))
  split
  · exact d.numericCast_known
  · decide

theorem aggregate_written (a : AggregateRequest) (h : ∀ sql ∈ rawsOf a.filter, allowed.raw sql) :
    Written allowed (aggregate ctx base baseAlias a) := by
  unfold aggregate
  split
  · exact .silent rfl .nil
  · refine andThen_written ctx base looked _ _ fun s => ?_
    exact Written.append (.append (.word (by decide) (aggregateCall_written _ s a))
      (s.body_written base _ _ _ h)) (.word (by decide) (.name _ .nil))

omit looked in
theorem searchTerms_written (d : Dialect) (pattern : String) (columns : List Draft)
    (h : ∀ column ∈ columns, Written allowed column) :
    ∀ draft ∈ searchTerms d pattern columns, Written allowed draft := by
  intro draft found
  obtain ⟨column, known, rfl⟩ := List.mem_map.mp found
  exact (h column known).append
    (.word (by decide) (.word d.likeOperator_known (.word (by decide) (.bind _ .nil))))

theorem search_written (name : String) (columns : List String) (pattern : String) :
    Written allowed (search ctx base baseAlias name columns pattern) := by
  refine andThen_written ctx base looked _ _ fun s => ?_
  have terms : Written allowed (separated " OR "
      (searchTerms ctx.dialect pattern (columns.map (qualified s.relatedAlias)))) := by
    refine Written.separated (by decide) (searchTerms_written _ _ _ fun column found => ?_)
    obtain ⟨name, _, rfl⟩ := List.mem_map.mp found
    exact Written.qualified _ _
  exact ((Written.word (by decide) (s.body_written base _ none _ (by simp [rawsOf]))).append
    (.word (by decide) terms)).append (.word (by decide) .nil)

end Requests

end Subquery
end EagerLoad
