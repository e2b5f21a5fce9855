import EagerLoad.Proofs.Filter.Redacted
import EagerLoad.Proofs.Ordered
import EagerLoad.Relation.Keyed

/-! # Subqueries without their values

A relation has the owner's class as its only value, and a context has its locale. What a subquery and a
keyed statement write is the same after redaction of all they are made from. -/
namespace EagerLoad

open Sql Sql.Draft

/-- Without the class of its owners that a pivot table may fix. -/
def Relation.redacted : Relation → Relation
  | .belongsToMany related p =>
    .belongsToMany related { p with morph := p.morph.map fun m => { m with typeValue := none } }
  | r => r

/-- Without the classes by which polymorphic relations know it and its relations know their owners. -/
def Entity.redacted (e : Entity) : Entity :=
  { e with
    morphName := none
    relations := e.relations.map fun declared => (declared.1, declared.2.redacted) }

def Registry.redacted (r : Registry) : Registry := r.map fun known => (known.1, known.2.redacted)

/-- In another locale, if in any. -/
def redactedLocale (locale : Option String) : Option String := locale.map fun _ => ""

def Context.redacted (ctx : Context) : Context :=
  { ctx with registry := ctx.registry.redacted, locale := redactedLocale ctx.locale }

def Source.redacted (s : Source) : Source :=
  { s with relation := s.relation.redacted, related := s.related.redacted }

def Link.redacted : Link → Link
  | .correlated baseAlias => .correlated baseAlias
  | .keys values => .keys (values.map fun _ => .hidden)

def RelationRequest.redacted (r : RelationRequest) : RelationRequest :=
  { r with filter := r.filter.map Filter.redacted }

def CountRequest.redacted (c : CountRequest) : CountRequest :=
  { c with filter := c.filter.map Filter.redacted }

def AggregateRequest.redacted (a : AggregateRequest) : AggregateRequest :=
  { a with filter := a.filter.map Filter.redacted }

@[simp] theorem isSome_redactedLocale (locale : Option String) :
    (redactedLocale locale).isSome = locale.isSome := by
  cases locale <;> rfl

namespace Relation

@[simp] theorem related_redacted (r : Relation) : r.redacted.related = r.related := by
  cases r <;> rfl

@[simp] theorem baseKey_redacted (r : Relation) : r.redacted.baseKey = r.baseKey := by
  cases r <;> rfl

@[simp] theorem isMany_redacted (r : Relation) : r.redacted.isMany = r.isMany := by
  cases r <;> rfl

end Relation

@[simp] theorem Entity.relation?_redacted (e : Entity) (name : String) :
    e.redacted.relation? name = (e.relation? name).map Relation.redacted :=
  lookup_map_value Relation.redacted e.relations name

theorem Registry.resolve_redacted (r : Registry) (type : String) :
    r.redacted.resolve type = (r.resolve type).map Entity.redacted := by
  have found : r.redacted.get? type = (r.get? type).map Entity.redacted :=
    lookup_map_value Entity.redacted r type
  rw [resolve, resolve, found]
  cases r.get? type <;> rfl

theorem Localization.join_redacted (l : Localization)
    (ownerAlias ownerKey satelliteAlias locale : String) :
    (l.join ownerAlias ownerKey satelliteAlias "").redacted =
      (l.join ownerAlias ownerKey satelliteAlias locale).redacted := by
  simp [join, Step.redacted]

namespace Source

variable (s : Source) (base : Entity) (locale : Option String) (filter : Option Filter) (link : Link)

theorem resolve_redacted (ctx : Context) (name : String) (localized : Bool) :
    resolve ctx.redacted base.redacted name localized =
      (resolve ctx base name localized).map redacted := by
  have finds (related : Entity) : localization? ctx.redacted related.redacted localized =
      localization? ctx related localized := by
    unfold localization?
    rw [Context.redacted, isSome_redactedLocale]
    rfl
  unfold resolve
  rw [Entity.relation?_redacted]
  cases base.relation? name with
  | none => rfl
  | some relation =>
    have registered : ctx.redacted.registry = ctx.registry.redacted := rfl
    simp only [Option.map_some, Relation.related_redacted, registered, Registry.resolve_redacted]
    cases ctx.registry.resolve relation.related with
    | error e => rfl
    | ok related =>
      simp only [Except.map, finds]
      rfl

theorem andThen_redacted (ctx : Context) (name : String) (localized : Bool) {next next' : Source → Draft}
    (h : ∀ s : Source, (next' s.redacted).redacted = (next s).redacted) :
    (andThen ctx.redacted base.redacted name localized next').redacted =
      (andThen ctx base name localized next).redacted := by
  refine andThen_mapped (resolve_redacted base ctx name localized) fun s => ?_
  rw [redacted_append, redacted_append, h s, Context.redacted, isSome_redactedLocale]
  rfl

@[simp] theorem tables_redacted : s.redacted.tables = s.tables := by
  obtain ⟨name, relation, related, localization⟩ := s
  cases relation <;> rfl

@[simp] theorem owner_redacted : s.redacted.owner = s.owner := by
  obtain ⟨name, relation, related, localization⟩ := s
  cases relation <;> rfl

theorem fromClause_redacted :
    (s.redacted.fromClause (redactedLocale locale)).redacted = (s.fromClause locale).redacted := by
  have tables := s.tables_redacted
  obtain ⟨name, relation, related, localization⟩ := s
  cases localization with
  | none => exact congrArg (fun tables => Draft.redacted (tables ++ [])) tables
  | some l =>
    cases locale with
    | none => exact congrArg (fun tables => Draft.redacted (tables ++ [])) tables
    | some locale =>
      change (Source.tables _ ++ l.join _ _ _ "").redacted = (Source.tables _ ++ l.join _ _ _ locale).redacted
      rw [tables, redacted_append, redacted_append]
      exact congrArg _ (l.join_redacted _ _ _ locale)

theorem link_redacted : (s.redacted.link link.redacted).redacted = (s.link link).redacted := by
  cases link with
  | correlated baseAlias =>
    simp only [Link.redacted, Source.link, owner_redacted, redacted_append, redacted_cons]
    rw [redacted_qualified, redacted_qualified]
    congr 2
    exact congrArg (qualified baseAlias) s.relation.baseKey_redacted
  | keys values =>
    cases values with
    | nil => rfl
    | cons value rest =>
      simp [Link.redacted, Source.link, redacted_bindList]

/-- The owner's class is bound, so only the column that holds it is written. -/
theorem morphTest_redacted :
    (s.redacted.morphTest base.redacted).map (fun test => (test.1, test.2.1)) =
      (s.morphTest base).map fun test => (test.1, test.2.1) := by
  obtain ⟨name, relation, related, localization⟩ := s
  cases relation with
  | belongsToMany related pivot =>
    obtain ⟨table, foreignPivotKey, relatedPivotKey, parentKey, relatedKey, morph⟩ := pivot
    cases morph <;> rfl
  | _ => rfl

theorem scope_redacted :
    (s.redacted.scope base.redacted link.redacted).redacted = (s.scope base link).redacted := by
  have deleted : s.redacted.related.softDeletes = s.related.softDeletes := rfl
  rw [scope, scope, redacted_append, redacted_append, redacted_append, redacted_append,
    link_redacted, deleted]
  congr 2
  have test := s.morphTest_redacted base
  cases own : s.morphTest base with
  | none =>
    cases other : s.redacted.morphTest base.redacted with
    | none => rfl
    | some _ =>
      rw [own, other] at test
      exact nomatch test
  | some found =>
    cases other : s.redacted.morphTest base.redacted with
    | none =>
      rw [own, other] at test
      exact nomatch test
    | some found' =>
      obtain ⟨table, column, value⟩ := found
      obtain ⟨table', column', value'⟩ := found'
      rw [own, other] at test
      obtain ⟨rfl, rfl⟩ := Prod.mk.inj (Option.some.inj test)
      simp [Step.redacted]

theorem body_redacted :
    (s.redacted.body (redactedLocale locale) base.redacted (filter.map Filter.redacted)
        link.redacted).redacted = (s.body locale base filter link).redacted := by
  unfold body
  simp only [redacted_append, redacted_cons, fromClause_redacted, scope_redacted]
  congr 1
  cases filter with
  | none => rfl
  | some f =>
    have conditions := f.conditions_redacted s.qualifier
    have same : s.redacted.qualifier = s.qualifier := rfl
    simp only [Option.map_some, Filter.hasConditions_redacted, redacted_ite, redacted_append,
      redacted_cons, same, conditions]

end Source

@[simp] theorem Subquery.orderOf_redacted (filter : Option Filter) :
    orderOf (filter.map Filter.redacted) = orderOf filter := by
  cases filter <;> rfl

@[simp] theorem Subquery.limitOf_redacted (filter : Option Filter) :
    limitOf (filter.map Filter.redacted) = limitOf filter := by
  cases filter <;> rfl

namespace RelationRequest

variable (r : RelationRequest) (s : Source) (base : Entity)

@[simp] theorem segments_redacted : r.redacted.segments = r.segments := rfl

@[simp] theorem projection_redacted : r.redacted.projection s.redacted = r.projection s := rfl

@[simp] theorem shape_redacted : r.redacted.shape base.redacted = r.shape base := by
  obtain ⟨name, kind, columns, filter, nestedPath⟩ := r
  cases kind with
  | nested =>
    simp only [shape, redacted, Entity.relation?_redacted]
    cases base.relation? name with
    | none => rfl
    | some relation => exact congrArg _ (congrArg Shape.ofMany relation.isMany_redacted)
  | _ => rfl

theorem withProjection_redacted {next next' : Columns → Draft}
    (h : ∀ columns, (next' columns).redacted = (next columns).redacted) :
    (r.redacted.withProjection s.redacted next').redacted = (r.withProjection s next).redacted := by
  rw [withProjection, withProjection, redacted_append, redacted_append, projection_redacted,
    redacted_andThen, redacted_andThen, funext h]
  rfl

end RelationRequest

namespace Subquery

section Rows

variable (ctx : Context) (base : Entity) (s : Source) (columns : Columns) (filter : Option Filter)
  (link : Link)

theorem single_redacted :
    (single ctx.redacted base.redacted s.redacted columns (filter.map Filter.redacted)
      link.redacted).redacted = (single ctx base s columns filter link).redacted := by
  have body := s.body_redacted base ctx.locale filter link
  have order : s.redacted.orderClause (orderOf filter) = s.orderClause (orderOf filter) := rfl
  simp only [single, redacted_append, redacted_cons, orderOf_redacted, order]
  rw [show ctx.redacted.locale = redactedLocale ctx.locale from rfl, body]
  rfl

theorem plainCollection_redacted :
    (plainCollection ctx.redacted base.redacted s.redacted columns (filter.map Filter.redacted)
      link.redacted).redacted = (plainCollection ctx base s columns filter link).redacted := by
  have body := s.body_redacted base ctx.locale filter link
  simp only [plainCollection, redacted_append, redacted_cons, orderOf_redacted]
  rw [show ctx.redacted.locale = redactedLocale ctx.locale from rfl, body]
  rfl

theorem derivedCollection_redacted :
    (derivedCollection ctx.redacted base.redacted s.redacted columns (filter.map Filter.redacted)
      link.redacted).redacted = (derivedCollection ctx base s columns filter link).redacted := by
  have body := s.body_redacted base ctx.locale filter link
  simp only [derivedCollection, redacted_append, redacted_cons, orderOf_redacted, limitOf_redacted]
  rw [show ctx.redacted.locale = redactedLocale ctx.locale from rfl, body]
  rfl

theorem collection_redacted :
    (collection ctx.redacted base.redacted s.redacted columns (filter.map Filter.redacted)
      link.redacted).redacted = (collection ctx base s columns filter link).redacted := by
  simp only [collection, orderOf_redacted, limitOf_redacted, redacted_ite,
    plainCollection_redacted, derivedCollection_redacted]
  rfl

end Rows

variable (ctx : Context) (base : Entity) (baseAlias : String)

theorem relation_redacted (r : RelationRequest) :
    (relation ctx.redacted base.redacted baseAlias r.redacted).redacted =
      (relation ctx base baseAlias r).redacted := by
  simp only [relation, RelationRequest.segments_redacted, RelationRequest.shape_redacted]
  rw [redacted_andThen, redacted_andThen]
  refine congrArg (andThen r.segments) (funext fun _ => ?_)
  refine Source.andThen_redacted base ctx r.name true fun s => ?_
  refine r.withProjection_redacted s fun columns => ?_
  rw [redacted_andThen, redacted_andThen]
  refine congrArg (andThen (r.shape base)) (funext fun shape => ?_)
  have single := single_redacted ctx base s columns r.filter (.correlated baseAlias)
  have collection := collection_redacted ctx base s columns r.filter (.correlated baseAlias)
  cases shape with
  | one => exact redacted_within [.text "("] [.text ") AS ", .name r.label] single
  | many => exact redacted_within [.text "("] [.text ") AS ", .name r.label] collection

theorem count_redacted (c : CountRequest) :
    (count ctx.redacted base.redacted baseAlias c.redacted).redacted =
      (count ctx base baseAlias c).redacted := by
  refine Source.andThen_redacted base ctx c.relation false fun s => ?_
  simp only [redacted_append, redacted_cons]
  exact congrArg (_ :: · ++ _) (s.body_redacted base ctx.locale c.filter (.correlated baseAlias))

theorem aggregate_redacted (a : AggregateRequest) :
    (aggregate ctx.redacted base.redacted baseAlias a.redacted).redacted =
      (aggregate ctx base baseAlias a).redacted := by
  rw [aggregate, aggregate, redacted_ite, redacted_ite]
  refine congrArg (ite _ _) ?_
  refine Source.andThen_redacted base ctx a.relation false fun s => ?_
  simp only [redacted_append, redacted_cons]
  exact congrArg (_ :: _ ++ · ++ _) (s.body_redacted base ctx.locale a.filter (.correlated baseAlias))

theorem redacted_searchTerms (d : Dialect) (pattern pattern' : String) (columns : List Draft) :
    (searchTerms d pattern columns).map Draft.redacted =
      (searchTerms d pattern' columns).map Draft.redacted := by
  simp [searchTerms, Step.redacted]

/-- Two patterns are bound to the same text. -/
theorem search_redacted (relation : String) (columns : List String) (pattern pattern' : String) :
    (search ctx.redacted base.redacted baseAlias relation columns pattern').redacted =
      (search ctx base baseAlias relation columns pattern).redacted := by
  refine Source.andThen_redacted base ctx relation false fun s => ?_
  simp only [redacted_append, redacted_cons, redacted_separated]
  have body : (s.redacted.body ctx.redacted.locale base.redacted none
      (.correlated baseAlias)).redacted = (s.body ctx.locale base none (.correlated baseAlias)).redacted :=
    s.body_redacted base ctx.locale none (.correlated baseAlias)
  have terms : (searchTerms ctx.redacted.dialect pattern'
        (columns.map (qualified s.redacted.relatedAlias))).map Draft.redacted =
      (searchTerms ctx.dialect pattern (columns.map (qualified s.relatedAlias))).map Draft.redacted :=
    redacted_searchTerms ctx.dialect pattern' pattern _
  rw [body, terms]

end Subquery

namespace Keyed

variable (ctx : Context) (base : Entity) (keys : List DbValue)

theorem ownerItem_redacted (s : Source) : ownerItem s.redacted = ownerItem s :=
  congrArg (· ++ _) s.owner_redacted

theorem relation_redacted (r : RelationRequest) (columns : ColumnSelection) :
    (relation ctx.redacted base.redacted r.redacted columns (keys.map fun _ => .hidden)).redacted =
      (relation ctx base r columns keys).redacted := by
  refine Source.andThen_redacted base ctx r.name true fun s => ?_
  refine RelationRequest.withProjection_redacted { r with columns := columns } s fun projected => ?_
  have body := s.body_redacted base ctx.locale r.filter (.keys keys)
  have order : s.redacted.orderClause (Subquery.orderOf r.filter) =
    s.orderClause (Subquery.orderOf r.filter) := rfl
  simp only [RelationRequest.redacted, Subquery.orderOf_redacted, redacted_append, redacted_cons,
    ownerItem_redacted, order]
  exact congrArg (_ :: _ ++ _ ++ · ++ _) body

theorem grouped_redacted (s : Source) (value : Draft) (filter : Option Filter) :
    (grouped ctx.redacted base.redacted s.redacted value (filter.map Filter.redacted)
      (keys.map fun _ => .hidden)).redacted = (grouped ctx base s value filter keys).redacted := by
  have body := s.body_redacted base ctx.locale filter (.keys keys)
  simp only [grouped, redacted_append, redacted_cons, ownerItem_redacted, Source.owner_redacted]
  exact congrArg (_ ++ · ++ _) body

theorem count_redacted (c : CountRequest) :
    (count ctx.redacted base.redacted c.redacted (keys.map fun _ => .hidden)).redacted =
      (count ctx base c keys).redacted :=
  Source.andThen_redacted base ctx c.relation false fun s =>
    grouped_redacted ctx base keys s _ c.filter

theorem aggregate_redacted (a : AggregateRequest) :
    (aggregate ctx.redacted base.redacted a.redacted (keys.map fun _ => .hidden)).redacted =
      (aggregate ctx base a keys).redacted := by
  refine Source.andThen_redacted base ctx a.relation false fun s => ?_
  rw [redacted_append, redacted_append]
  exact congrArg (_ ++ ·) (grouped_redacted ctx base keys s _ a.filter)

end Keyed
end EagerLoad
