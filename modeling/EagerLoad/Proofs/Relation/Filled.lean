import EagerLoad.Proofs.Filter.Built
import EagerLoad.Proofs.Relation.Written
import EagerLoad.Relation.Keyed

/-! # Parentheses of subqueries

Subqueries open parentheses for themselves, for the calls of functions, for lists of keys and for conditions. If
their filters are grouped and have no raw texts, all of these have something in them. -/
namespace EagerLoad

open Sql Sql.Draft

variable {d : Dialect}

/-- Whether a filter, if there is one, has no empty group and no raw text. -/
def Sound (filter : Option Filter) : Prop := ∀ f, filter = some f → f.Grouped ∧ f.raws = []

section Words

variable (d : Dialect)

theorem Dialect.objectFunction_enclosed : Enclosed d.objectFunction.toList :=
  .of_notMem (by cases d <;> simp only [Dialect.objectFunction] <;> decide)

theorem Dialect.objectFunction_inks (e : Dialect) (rest : Draft) : Inks e (.text d.objectFunction :: rest) :=
  .word (by cases d <;> simp only [Dialect.objectFunction] <;> decide) rest

theorem Dialect.textCast_enclosed : Enclosed d.textCast.toList :=
  .of_notMem (by cases d <;> simp only [Dialect.textCast] <;> decide)

theorem Dialect.numericCast_enclosed : Enclosed d.numericCast.toList :=
  .of_notMem (by cases d <;> simp only [Dialect.numericCast] <;> decide)

theorem Dialect.likeOperator_enclosed : Enclosed d.likeOperator.toList :=
  .of_notMem (by cases d <;> simp only [Dialect.likeOperator] <;> decide)

end Words

theorem Localization.join_enclosing (l : Localization) (ownerAlias ownerKey satelliteAlias locale : String) :
    Enclosing d (l.join ownerAlias ownerKey satelliteAlias locale) := by
  have tables : Enclosing d [.text " LEFT JOIN ", .name l.satellite, .text " AS ",
      .name satelliteAlias, .text " ON "] :=
    .plain (by decide) (.name _ (.plain (by decide) (.name _ (.plain (by decide) .nil))))
  refine (((tables.append (.qualified _ _)).append ?_).append ?_).append ?_
  · exact .plain (by decide) (.qualified _ _)
  · exact .plain (by decide) (.qualified _ _)
  · exact .plain (by decide) (.bind _ .nil)

namespace Columns

variable (c : Columns)

/-- The pairs of an object, in the parentheses of its function. Without columns nothing is in them. -/
private theorem call_enclosing (objects : Dialect) {pairs : List Draft}
    (each : ∀ draft ∈ pairs, ∃ source column, draft = pair source column) :
    Enclosing d ([.text objects.objectFunction, .text "("] ++ separated ", " pairs ++ [.text ")"]) := by
  have none : Enclosed (objects.objectFunction ++ "()").toList := by
    cases objects <;> simp only [Dialect.objectFunction] <;> decide +kernel
  by_cases some : pairs = []
  · subst some
    intro _
    have shape : Draft.text d ([.text objects.objectFunction, .text "("] ++ separated ", " [] ++ [.text ")"]) =
        (objects.objectFunction ++ "()").toList := by
      simp [Step.sql, separated]
    rw [shape]
    exact none
  · have listed : Enclosing d (separated ", " pairs) := by
      refine .separated (.of_notMem (by decide)) fun draft found => ?_
      obtain ⟨source, column, rfl⟩ := each draft found
      exact .pair source column
    have inks : Inks d (separated ", " pairs) := by
      refine .separated some (fun draft found => ?_) _
      obtain ⟨source, column, rfl⟩ := each draft found
      exact .word (by decide) _
    exact .word objects.objectFunction_enclosed (.opened (by decide +kernel) (inks.append _)
      (listed.append (.plain (by decide) .nil)))

theorem object_enclosing (objects : Dialect) (mainAlias satelliteAlias : String) :
    Enclosing d (c.object objects mainAlias satelliteAlias) := by
  refine call_enclosing objects fun draft found => ?_
  obtain found | found := List.mem_append.mp found <;> obtain ⟨column, -, rfl⟩ := List.mem_map.mp found
  · exact ⟨_, _, rfl⟩
  · exact ⟨_, _, rfl⟩

theorem flatObject_enclosing (objects : Dialect) (source : String) :
    Enclosing d (c.flatObject objects source) := by
  refine call_enclosing objects fun draft found => ?_
  obtain ⟨column, -, rfl⟩ := List.mem_map.mp found
  exact ⟨_, _, rfl⟩

theorem object_inks (objects : Dialect) (mainAlias satelliteAlias : String) :
    Inks d (c.object objects mainAlias satelliteAlias) := objects.objectFunction_inks d _

theorem flatObject_inks (objects : Dialect) (source : String) : Inks d (c.flatObject objects source) :=
  objects.objectFunction_inks d _

theorem items_enclosing (mainAlias satelliteAlias : String) :
    ∀ draft ∈ c.items mainAlias satelliteAlias, Enclosing d draft := by
  intro draft found
  obtain found | found := List.mem_append.mp found <;> obtain ⟨column, -, rfl⟩ := List.mem_map.mp found
  · exact .qualified _ _
  · exact Enclosing.append (.qualified _ _) (.plain (by decide) (.name _ .nil))

theorem selectList_enclosing (mainAlias satelliteAlias : String) :
    Enclosing d (c.selectList mainAlias satelliteAlias) :=
  .separated (.of_notMem (by decide)) (c.items_enclosing mainAlias satelliteAlias)

end Columns

namespace Source

variable (s : Source) (base : Entity)

theorem tableAs_enclosing {keyword : String} (known : Enclosed keyword.toList) (table name : String) :
    Enclosing d (tableAs keyword table name) :=
  .word known (.name _ (.plain (by decide) (.name _ .nil)))

theorem tables_enclosing : Enclosing d s.tables := by
  have equal (a b x y : String) :
      Enclosing d (.text " ON " :: qualified a b ++ .text " = " :: qualified x y) :=
    Enclosing.append (.plain (by decide) (.qualified _ _)) (.plain (by decide) (.qualified _ _))
  have first (table name : String) : Enclosing d (tableAs " FROM " table name) :=
    tableAs_enclosing (by decide +kernel) table name
  have second (table name : String) : Enclosing d (tableAs " INNER JOIN " table name) :=
    tableAs_enclosing (by decide +kernel) table name
  unfold tables
  split
  · rw [List.append_assoc]
    exact ((first _ _).append (second _ _)).append (equal _ _ _ _)
  · rw [List.append_assoc]
    exact ((first _ _).append (second _ _)).append (equal _ _ _ _)
  · exact first _ _

theorem fromClause_enclosing (locale : Option String) : Enclosing d (s.fromClause locale) := by
  refine s.tables_enclosing.append ?_
  split
  · exact Localization.join_enclosing _ _ _ _ _
  · exact .nil

/-- No keys are no list of keys. -/
theorem link_enclosing (link : Link) : Enclosing d (s.link link) := by
  unfold Source.link
  split
  · exact Enclosing.append (.qualified _ _) (.plain (by decide) (.qualified _ _))
  · exact .plain (by decide) .nil
  case h_3 values some =>
    rw [List.append_assoc]
    exact Enclosing.append (.qualified _ _) (.bindList (by decide +kernel) (fun none => some (none ▸ rfl)))

theorem scope_enclosing (link : Link) : Enclosing d (s.scope base link) := by
  refine ((s.link_enclosing link).append ?_).append ?_
  · split
    · exact Enclosing.append (.plain (by decide) (.qualified _ _)) (.plain (by decide) (.bind _ .nil))
    · exact .nil
  · split
    · exact Enclosing.append (.plain (by decide) (.qualified _ _)) (.plain (by decide) .nil)
    · exact .nil

theorem body_enclosing (locale : Option String) {filter : Option Filter} (sound : Sound filter) (link : Link) :
    Enclosing d (s.body locale base filter link) := by
  refine ((s.fromClause_enclosing locale).append
    (.plain (by decide) (s.scope_enclosing base link))).append ?_
  cases filter with
  | none => exact .nil
  | some f =>
    obtain ⟨grouped, rawless⟩ := sound f rfl
    dsimp only
    split
    case isTrue some => exact f.conditions_enclosing _ (by decide +kernel) grouped rawless some
    case isFalse => exact .nil

theorem orderClause_enclosing (terms : List OrderTerm) : Enclosing d (s.orderClause terms) := by
  unfold orderClause
  split
  · exact .nil
  · exact .plain (by decide) (orderDraft_enclosing _ _)

theorem andThen_enclosing {ctx : Context} {name : String} {localized : Bool} {next : Source → Draft}
    (each : ∀ s, Enclosing d (next s)) : Enclosing d (andThen ctx base name localized next) := by
  refine .andThen fun s _ => Enclosing.append (.quiet ?_) (each s)
  split <;> simp [Step.sql]

end Source

/-- A body without a filter of its own. -/
theorem sound_none : Sound none := fun _ none => nomatch none

theorem RelationRequest.withProjection_enclosing (r : RelationRequest) (s : Source) {next : Columns → Draft}
    (each : ∀ columns, Enclosing d (next columns)) : Enclosing d (r.withProjection s next) := by
  refine Enclosing.append (.quiet fun step found => ?_) (.andThen fun columns _ => each columns)
  obtain ⟨notice, -, rfl⟩ := List.mem_map.mp found
  rfl

namespace Subquery

variable (ctx : Context) (base : Entity) (baseAlias : String)

theorem arrayOf_enclosing (arrays : Dialect) {row order : Draft} (inks : Inks d row) (hr : Enclosing d row)
    (ho : Enclosing d order) : Enclosing d (arrayOf arrays row order) := by
  have aggregate : Filled arrays.arrayAggregate.1.toList ∧ Enclosed arrays.arrayAggregate.2.toList := by
    unfold Dialect.arrayAggregate
    split
    · decide +kernel
    · decide +kernel
    · split <;> decide +kernel
  have rest : Enclosing d ((if arrays.ordersAggregate && !order.isEmpty then .text " ORDER BY " :: order else []) ++
      [.text arrays.arrayAggregate.2, .text arrays.textCast]) := by
    refine Enclosing.append ?_ (.word aggregate.2 (.word arrays.textCast_enclosed .nil))
    split
    · exact .plain (by decide) ho
    · exact .nil
  unfold arrayOf
  rw [List.append_assoc, List.append_assoc]
  exact .opened aggregate.1 (inks.append _) (hr.append rest)

section Rows

variable (s : Source) (columns : Columns) {filter : Option Filter} (sound : Sound filter) (link : Link)
include sound

theorem single_enclosing : Enclosing d (single ctx base s columns filter link) := by
  have selected : Enclosing d (.text "SELECT " :: columns.object ctx.dialect s.relatedAlias s.satelliteAlias) :=
    .plain (by decide) (columns.object_enclosing _ _ _)
  have related : Enclosing d (.text ctx.dialect.textCast :: s.body ctx.locale base filter link) :=
    .word ctx.dialect.textCast_enclosed (s.body_enclosing base _ sound _)
  exact ((selected.append related).append (s.orderClause_enclosing _)).append (.plain (by decide) .nil)

theorem plainCollection_enclosing : Enclosing d (plainCollection ctx base s columns filter link) :=
  Enclosing.append (.plain (by decide) (arrayOf_enclosing _ (columns.object_inks _ _ _)
    (columns.object_enclosing _ _ _) (orderDraft_enclosing _ _))) (s.body_enclosing base _ sound _)

theorem derivedCollection_enclosing : Enclosing d (derivedCollection ctx base s columns filter link) := by
  have inner : Enclosing d (.text " FROM (SELECT " :: columns.selectList s.relatedAlias s.satelliteAlias) :=
    .word (by decide +kernel) (columns.selectList_enclosing _ _)
  refine ((((Enclosing.append (.plain (by decide) (arrayOf_enclosing _ (columns.flatObject_inks _ _)
    (columns.flatObject_enclosing _ _) ?_)) inner).append (s.body_enclosing base _ sound _)).append
    (s.orderClause_enclosing _)).append ?_).append (.plain (by decide) (.name _ .nil))
  · split
    · exact orderDraft_enclosing _ _
    · exact .nil
  · split
    · exact .limit ctx.dialect (some _) none .nil
    · exact .nil

theorem collection_enclosing : Enclosing d (collection ctx base s columns filter link) := by
  unfold collection
  split
  · exact plainCollection_enclosing ctx base s columns sound link
  · exact derivedCollection_enclosing ctx base s columns sound link

omit sound in
theorem single_inks : Inks d (single ctx base s columns filter link) :=
  Inks.append (Inks.append (Inks.append (.word (by decide) _) _) _) _

omit sound in
theorem collection_inks : Inks d (collection ctx base s columns filter link) := by
  unfold collection
  split
  · exact Inks.append (.word (by decide) _) _
  · unfold derivedCollection
    exact Inks.append (Inks.append (Inks.append (Inks.append (Inks.append (.word (by decide) _) _) _) _) _) _

end Rows

theorem relation_enclosing {r : RelationRequest} (sound : Sound r.filter) :
    Enclosing d (relation ctx base baseAlias r) := by
  refine .andThen fun _ _ => Source.andThen_enclosing base fun s =>
    r.withProjection_enclosing s fun columns => .andThen fun shape _ => ?_
  have ending : Enclosing d [.text ") AS ", .name r.label] := .plain (by decide) (.name _ .nil)
  cases shape with
  | one =>
    change Enclosing d (.text "(" :: (single ctx base s columns r.filter (.correlated baseAlias) ++
      [.text ") AS ", .name r.label]))
    exact .opened (by decide +kernel) ((single_inks ctx base s columns _).append _)
      ((single_enclosing ctx base s columns sound _).append ending)
  | many =>
    change Enclosing d (.text "(" :: (collection ctx base s columns r.filter (.correlated baseAlias) ++
      [.text ") AS ", .name r.label]))
    exact .opened (by decide +kernel) ((collection_inks ctx base s columns _).append _)
      ((collection_enclosing ctx base s columns sound _).append ending)

theorem count_enclosing {c : CountRequest} (sound : Sound c.filter) :
    Enclosing d (count ctx base baseAlias c) := by
  have ending : Enclosing d [.text ") AS ", .name c.label] := .plain (by decide) (.name _ .nil)
  refine Source.andThen_enclosing base fun s => ?_
  have counted : Enclosing d (.text "(SELECT COUNT(*)" :: s.body ctx.locale base c.filter (.correlated baseAlias)) :=
    .word (by decide +kernel) (s.body_enclosing base _ sound _)
  exact counted.append ending

theorem aggregateCall_enclosing (s : Source) (a : AggregateRequest) :
    Enclosing d (aggregateCall ctx.dialect s a) := by
  have function : Enclosed a.function.sql.toList := .of_notMem (by cases a.function <;> decide)
  have cast : Enclosed (if a.function.isNumeric then ctx.dialect.numericCast else "").toList := by
    split
    · exact ctx.dialect.numericCast_enclosed
    · exact .of_notMem (by decide)
  exact .word function (.opened (by decide +kernel) (.name _ _)
    (Enclosing.append (.qualified _ _) (.plain (by decide) (.word cast .nil))))

theorem aggregate_enclosing {a : AggregateRequest} (sound : Sound a.filter) :
    Enclosing d (aggregate ctx base baseAlias a) := by
  have ending : Enclosing d [.text ") AS ", .name a.label] := .plain (by decide) (.name _ .nil)
  unfold aggregate
  split
  · exact .quiet (by simp [Step.sql])
  · refine Source.andThen_enclosing base fun s => ?_
    have called : Enclosing d (.text "(SELECT " :: aggregateCall ctx.dialect s a) :=
      .word (by decide +kernel) (aggregateCall_enclosing ctx s a)
    exact (called.append (s.body_enclosing base _ sound _)).append ending

theorem searchTerms_enclosing (e : Dialect) (pattern : String) {columns : List Draft}
    (each : ∀ column ∈ columns, Enclosing d column ∧ Inks d column) :
    ∀ draft ∈ searchTerms e pattern columns, Enclosing d draft ∧ Inks d draft := by
  intro draft found
  obtain ⟨column, known, rfl⟩ := List.mem_map.mp found
  exact ⟨(each column known).1.append (.plain (by decide) (.word e.likeOperator_enclosed (.plain (by decide)
    (.bind _ .nil)))), (each column known).2.append _⟩

/-- Terms in parentheses, after a word that opens them. -/
theorem terms_enclosing {opening closing : String} (known : Filled opening.toList) (closes : Enclosed closing.toList)
    {terms : List Draft} (some : terms ≠ []) (each : ∀ term ∈ terms, Enclosing d term ∧ Inks d term) :
    Enclosing d (.text opening :: (separated " OR " terms ++ [.text closing])) := by
  have inks : Inks d (separated " OR " terms) := .separated some (fun term found => (each term found).2) _
  have joined : Enclosing d (separated " OR " terms) :=
    .separated (.of_notMem (by decide)) fun term found => (each term found).1
  exact .opened known (inks.append _) (joined.append (.word closes .nil))

theorem search_enclosing (name : String) {columns : List String} (some : columns ≠ []) (pattern : String) :
    Enclosing d (search ctx base baseAlias name columns pattern) := by
  refine Source.andThen_enclosing base fun s => ?_
  have known : Enclosing d (.text "EXISTS (SELECT 1" :: s.body ctx.locale base none (.correlated baseAlias)) :=
    .word (by decide +kernel) (s.body_enclosing base _ sound_none _)
  have columnwise : ∀ column ∈ columns.map (qualified s.relatedAlias), Enclosing d column ∧ Inks d column := by
    intro column found
    obtain ⟨name, -, rfl⟩ := List.mem_map.mp found
    exact ⟨.qualified _ _, .qualified _ _⟩
  rw [List.append_assoc]
  exact known.append (terms_enclosing (by decide +kernel) (by decide +kernel) (by simpa [searchTerms] using some)
    (searchTerms_enclosing _ _ columnwise))

theorem search_inks (name : String) (columns : List String) (pattern : String) :
    Inks d (search ctx base baseAlias name columns pattern) := by
  refine .andThen fun s _ => ?_
  rw [Bool.false_and, if_neg Bool.false_ne_true, List.nil_append]
  exact Inks.append (Inks.append (Inks.append (.word (by decide) _) _) _) _

end Subquery

namespace Keyed

variable (ctx : Context) (base : Entity) (keys : List DbValue)

private theorem ownerItem_enclosing (s : Source) : Enclosing d (.text "SELECT " :: ownerItem s) :=
  .plain (by decide) (Enclosing.append (.qualified _ _) (.plain (by decide) (.name _ .nil)))

theorem relation_enclosing {r : RelationRequest} (sound : Sound r.filter) (columns : ColumnSelection) :
    Enclosing d (relation ctx base r columns keys) := by
  refine Source.andThen_enclosing base fun s =>
    RelationRequest.withProjection_enclosing _ s fun projected => ?_
  have selected : Enclosing d (if projected.isEmpty then []
      else .text ", " :: projected.selectList s.relatedAlias s.satelliteAlias) := by
    split
    · exact .nil
    · exact .plain (by decide) (projected.selectList_enclosing _ _)
  exact (((ownerItem_enclosing s).append selected).append (s.body_enclosing base _ sound _)).append
    (s.orderClause_enclosing _)

private theorem grouped_enclosing (s : Source) {value : Draft} (hv : Enclosing d value)
    {filter : Option Filter} (sound : Sound filter) : Enclosing d (grouped ctx base s value filter keys) := by
  have selected : Enclosing d (.text ", " :: value) := .plain (by decide) hv
  have named : Enclosing d [.text " AS ", .name valueAlias] := .plain (by decide) (.name _ .nil)
  have owners : Enclosing d (.text " GROUP BY " :: s.owner) := .plain (by decide) (.qualified _ _)
  exact ((((ownerItem_enclosing s).append selected).append named).append (s.body_enclosing base _ sound _)).append
    owners

theorem count_enclosing {c : CountRequest} (sound : Sound c.filter) : Enclosing d (count ctx base c keys) := by
  have rows : Enclosing d [.text "COUNT(*)"] := .word (by decide +kernel) .nil
  exact Source.andThen_enclosing base fun s => grouped_enclosing ctx base keys s rows sound

theorem aggregate_enclosing {a : AggregateRequest} (sound : Sound a.filter) :
    Enclosing d (aggregate ctx base a keys) := by
  refine Source.andThen_enclosing base fun s => ?_
  have checked : Enclosing d [.require s.relatedAlias, .require a.column] := .quiet (by simp [Step.sql])
  exact checked.append (grouped_enclosing ctx base keys s (Subquery.aggregateCall_enclosing ctx s a) sound)

end Keyed
end EagerLoad
