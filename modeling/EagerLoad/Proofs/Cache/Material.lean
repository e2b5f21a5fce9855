import EagerLoad.Proofs.Cache.Key
import EagerLoad.Proofs.Plan.Recovered
import EagerLoad.Proofs.Plan.Values
import EagerLoad.Proofs.Relation.Tagged

/-! # What a cache key stands for

The text that is hashed tells the requests of a plan and its base statement. What is not written there, the
filters of the base rows, joins, groups and where the plan is split, shows in the base statement. -/
namespace EagerLoad

namespace Plan

/-- Whether no infinity and no NaN occurs in the values of a plan. -/
structure IsFinite (p : Plan) : Prop where
  filter : p.filter.IsFinite
  having : p.having.IsFinite
  relations : ∀ r ∈ p.relations, FilterFinite r.filter
  counts : ∀ c ∈ p.counts, FilterFinite c.filter
  aggregates : ∀ a ∈ p.aggregates, FilterFinite a.filter

/-- A plan without values is finite. -/
theorem isFinite_of_unfiltered {p : Plan} (filter : p.filter.values = []) (having : p.having.values = [])
    (relations : ∀ r ∈ p.relations, r.filter = none) (counts : p.counts = [])
    (aggregates : p.aggregates = []) : p.IsFinite where
  filter v found := absurd found (by simp [filter])
  having v found := absurd found (by simp [having])
  relations r known f some := absurd some (by simp [relations r known])
  counts r known := absurd known (by simp [counts])
  aggregates r known := absurd known (by simp [aggregates])

section Values

theorem subqueryValues_isFinite {ctx : Context} {base : Entity} {name : String} {localized : Bool}
    {filter : Option Filter} (finite : FilterFinite filter) :
    ∀ v ∈ Subquery.values ctx base name localized filter, v.isFinite = true := by
  intro v found
  unfold Subquery.values at found
  split at found
  · rename_i s _
    obtain found | owned := List.mem_append.mp found
    · obtain locale | ownerClass := List.mem_append.mp found
      · unfold localeValues at locale
        split at locale
        · obtain rfl := List.mem_singleton.mp locale
          rfl
        · exact absurd locale (by simp)
      · unfold Source.classValues at ownerClass
        split at ownerClass
        · obtain rfl := List.mem_singleton.mp ownerClass
          rfl
        · exact absurd ownerClass (by simp)
    · cases filter with
      | none => exact absurd owned (by simp)
      | some f => exact finite f rfl v owned
  · exact absurd found (by simp)

theorem searchValues_isFinite (p : Plan) (c : Compiler) (s : Search) :
    ∀ v ∈ p.searchValues c s, v.isFinite = true := by
  have none : FilterFinite none := fun f absent => absurd absent (by simp)
  have pattern {columns : List String} : ∀ v ∈ columns.map fun _ => DbValue.text s.pattern,
      v.isFinite = true := by
    intro v found
    obtain ⟨-, -, rfl⟩ := List.mem_map.mp found
    rfl
  intro v found
  obtain own | related := List.mem_append.mp found
  · exact pattern v own
  · obtain ⟨group, -, found⟩ := List.mem_flatMap.mp related
    obtain tied | searched := List.mem_append.mp found
    · exact subqueryValues_isFinite none v tied
    · exact pattern v searched

variable {p : Plan} (finite : p.IsFinite) (c : Compiler)
include finite

theorem clauseValues_isFinite : ∀ v ∈ p.clauseValues c, v.isFinite = true := by
  intro v found
  obtain found | tested := List.mem_append.mp found
  · obtain filtered | searched := List.mem_append.mp found
    · exact finite.filter v filtered
    · split at searched
      · split at searched
        · exact p.searchValues_isFinite c _ v searched
        · exact absurd searched (by simp)
      · exact absurd searched (by simp)
  · exact finite.having v tested

theorem values_isFinite {part : Part} (known : part.relations ⊆ p.relations) :
    ∀ v ∈ p.values c part, v.isFinite = true := by
  intro v found
  obtain selected | rest := List.mem_append.mp found
  · obtain relations | scalars := List.mem_append.mp selected
    · obtain ⟨r, listed, found⟩ := List.mem_flatMap.mp relations
      exact subqueryValues_isFinite (finite.relations r (known listed)) v found
    · split at scalars
      · obtain counts | aggregates := List.mem_append.mp scalars
        · obtain ⟨count, listed, found⟩ := List.mem_flatMap.mp counts
          exact subqueryValues_isFinite (finite.counts count listed) v found
        · obtain ⟨aggregate, listed, found⟩ := List.mem_flatMap.mp aggregates
          exact subqueryValues_isFinite (finite.aggregates aggregate listed) v found
      · exact absurd scalars (by simp)
  · split at rest
    · exact absurd rest (by simp)
    · obtain locale | clauses := List.mem_append.mp rest
      · unfold localeValues at locale
        split at locale
        · obtain rfl := List.mem_singleton.mp locale
          rfl
        · exact absurd locale (by simp)
      · exact clauseValues_isFinite finite c v clauses

/-- The bindings of a base statement hold no infinity and no NaN either. -/
theorem base_isFinite {compiled : CompiledPlan} (h : p.compile c = .ok compiled) :
    ∀ v ∈ compiled.query.base.bindings, v.isFinite = true := by
  obtain ⟨complete, same⟩ := (Sql.Draft.ofDraft_eq_ok_iff _ _ _).mp (compile_base h)
  have bindings : compiled.query.base.bindings = p.values c (p.mainPart c.config) := by
    rw [← same, ← p.values_draft c _ complete]
    rfl
  rw [bindings]
  exact values_isFinite finite c (List.take_subset _ _)

end Values

end Plan

namespace CacheKey

/-- What the hashed text tells of two plans. -/
structure SameRequests (p q : Plan) : Prop where
  entity : p.entity.type = q.entity.type
  relations : p.relations = q.relations
  counts : p.counts = q.counts
  aggregates : p.aggregates = q.aggregates
  columns : p.columns = q.columns
  order : p.order = q.order
  limit : p.limit = q.limit
  offset : p.offset = q.offset
  search : p.search = q.search
  locale : p.locale = q.locale

variable {p q : Plan} {s t : Statement}

theorem material_isFinite (finite : p.IsFinite) (bound : ∀ v ∈ s.bindings, v.isFinite = true) :
    (material p s).isFinite = true := by
  have list {α : Type} (encode : α → Json) {items : List α}
      (each : ∀ item ∈ items, (encode item).isFinite = true) :
      Json.itemsFinite (items.map encode) = true := by
    rw [Json.itemsFinite_iff]
    intro item found
    obtain ⟨a, known, rfl⟩ := List.mem_map.mp found
    exact each a known
  have relations := list RelationRequest.toJson fun r known =>
    r.toJson_isFinite (finite.relations r known)
  have counts := list CountRequest.toJson fun c known => c.toJson_isFinite (finite.counts c known)
  have aggregates := list AggregateRequest.toJson fun a known =>
    a.toJson_isFinite (finite.aggregates a known)
  have order : Json.itemsFinite (p.order.map OrderTerm.toJson) = true :=
    list OrderTerm.toJson fun t _ => t.toJson_isFinite
  have bindings := list DbValue.tagged fun v known => DbValue.tagged_isFinite (bound v known)
  have search : (Json.ofOption Search.toJson p.search).isFinite = true := by
    cases p.search with
    | none => rfl
    | some s => exact s.toJson_isFinite
  simp [material, Json.isFinite, Json.fieldsFinite, relations, counts, aggregates, order, bindings,
    search, p.columns.toJson_isFinite, Json.ofOption_nat_isFinite, Json.ofOption_str_isFinite]

/-- Plans and statements of which the same is hashed ask for the same. -/
theorem material_inj (finite : p.IsFinite) (other : q.IsFinite)
    (bound : ∀ v ∈ s.bindings, v.isFinite = true) (otherBound : ∀ v ∈ t.bindings, v.isFinite = true)
    (same : (material p s).text = (material q t).text) : SameRequests p q ∧ s = t := by
  have values := Json.text_inj (material_isFinite finite bound) (material_isFinite other otherBound)
    same
  simp only [material, Json.obj.injEq, List.cons.injEq, Prod.mk.injEq, Json.str.injEq,
    Json.arr.injEq, true_and, and_true] at values
  obtain ⟨entity, relations, counts, aggregates, columns, order, limit, offset, search, locale, sql,
    bindings⟩ := values
  refine ⟨⟨entity, ?_, ?_, ?_, ColumnSelection.toJson_inj columns, ?_, Json.ofOption_nat_inj limit,
    Json.ofOption_nat_inj offset, ?_, Json.ofOption_str_inj locale⟩, ?_⟩
  · exact map_inj_on (fun r known r' known' equal => RelationRequest.toJson_inj
      (finite.relations r known) (other.relations r' known') equal) relations
  · exact map_inj_on (fun c known c' known' equal => CountRequest.toJson_inj
      (finite.counts c known) (other.counts c' known') equal) counts
  · exact map_inj_on (fun a known a' known' equal => AggregateRequest.toJson_inj
      (finite.aggregates a known) (other.aggregates a' known') equal) aggregates
  · exact map_inj_on (fun _ _ _ _ equal => OrderTerm.toJson_inj equal) order
  · exact Json.ofOption_inj (fun _ _ => by simp [Search.toJson]) (fun _ _ => by simp [Search.toJson])
      (fun _ _ _ _ equal => Search.toJson_inj equal) search
  · cases s
    cases t
    rw [Statement.mk.injEq]
    exact ⟨sql, map_inj_on (fun v known w known' equal =>
      DbValue.tagged_inj (bound v known) (otherBound w known') equal) bindings⟩

section Keys

variable {c : Compiler} {space : String} {a b : CompiledPlan}

/-- Plans with the same key ask for the same with the same base statement, if hashing tells their texts
apart. -/
theorem alike_of_derive (finite : p.IsFinite) (other : q.IsFinite) (pa : p.compile c = .ok a)
    (qb : q.compile c = .ok b)
    (collisionFree : Blake3.hex (material p a.query.base).text =
      Blake3.hex (material q b.query.base).text →
        (material p a.query.base).text = (material q b.query.base).text)
    (same : derive space p a.query.base = derive space q b.query.base) :
    SameRequests p q ∧ a.query.base = b.query.base :=
  material_inj finite other (Plan.base_isFinite finite c pa) (Plan.base_isFinite other c qb)
    (collisionFree (derive_inj same).2)

/-- The type of a registered entity tells the entity, so plans that ask for the same select the same. -/
theorem SameRequests.selectsAlike (h : SameRequests p q)
    (registered : c.registry.get? p.entity.type = some p.entity)
    (other : c.registry.get? q.entity.type = some q.entity) : p.SelectsAlike q := by
  rw [← h.entity, registered] at other
  exact ⟨Option.some.inj other, h.columns, h.relations, h.counts, h.aggregates, h.locale⟩

/-- A key determines what its plan is compiled to. Plans over registered entities that the same compiler
gives the same key ask for the same relations, counts, aggregates and columns in the same locale, have the
same base statement, and are compiled to the same query and layout, though neither their filters nor their
joins, groups and split are hashed. -/
theorem compiled_eq_of_derive (registered : c.registry.get? p.entity.type = some p.entity)
    (otherRegistered : c.registry.get? q.entity.type = some q.entity) (finite : p.IsFinite)
    (otherFinite : q.IsFinite) (pa : p.compile c = .ok a) (qb : q.compile c = .ok b)
    (collisionFree : Blake3.hex (material p a.query.base).text =
      Blake3.hex (material q b.query.base).text →
        (material p a.query.base).text = (material q b.query.base).text)
    (same : derive space p a.query.base = derive space q b.query.base) :
    (p.entity.type = q.entity.type ∧ p.relations = q.relations ∧ p.counts = q.counts ∧
      p.aggregates = q.aggregates ∧ p.columns = q.columns ∧ p.locale = q.locale) ∧
    (a.query.base.sql = b.query.base.sql ∧ a.query.base.bindings = b.query.base.bindings) ∧
    a.query = b.query ∧ a.layout = b.layout := by
  obtain ⟨requests, base⟩ := alike_of_derive finite otherFinite pa qb collisionFree same
  have alike := requests.selectsAlike registered otherRegistered
  obtain rfl := Plan.compile_eq_of_base alike pa qb base
  exact ⟨⟨requests.entity, requests.relations, requests.counts, requests.aggregates,
    requests.columns, requests.locale⟩, ⟨rfl, rfl⟩, rfl, rfl⟩

end Keys

namespace Stock

def items : RelationRequest := { name := "items", kind := .collection }

def owner : RelationRequest := { name := "owner", kind := .single }

def shop : Entity :=
  { type := "Shop", table := "shops"
    relations := [("items", .hasMany "Item" "shop" "id"), ("owner", .belongsTo "Owner" "owner" "id")] }

def compiler : Compiler :=
  { dialect := .sqlite
    registry :=
      [("Shop", shop), ("Item", { type := "Item", table := "items" }),
        ("Owner", { type := "Owner", table := "owners" })]
    memo := []
    config := { maxRelations := 1 } }

/-- The open shops, with their items and then their owner. -/
def opened : Plan :=
  { entity := shop
    relations := [items, owner]
    filter := ({} : Filter).and (.compare "closed" .equal .null) }

/-- The same shops by another filter, and with a number of relations of its own. -/
def notClosed : Plan :=
  { entity := shop
    relations := [items, owner]
    filter := ({} : Filter).and (.null "closed" false)
    maxRelations := some 1
    withTrashed := true }

def split : Split :=
  { base := .ofFragment .sqlite ((opened.draft compiler (opened.firstPart [items])).fragment .sqlite)
    followUps := [⟨["owner"], (opened.draft compiler (opened.laterPart [owner])).fragment .sqlite⟩]
    primaryKey := "id" }

def compiled : CompiledPlan := ⟨.split split, [⟨"items", .many⟩, ⟨"owner", .one⟩], 2⟩

/-- Both plans are written alike and are cut after their first relation. -/
theorem compile_eq {p : Plan} (entity : p.entity = shop) (relations : p.relations = [items, owner])
    (limit : p.relationLimit compiler.config = 1) (scalars : p.counts = [] ∧ p.aggregates = [])
    (first : p.draft compiler (p.firstPart [items]) =
      opened.draft compiler (opened.firstPart [items]))
    (later : p.draft compiler (p.laterPart [owner]) =
      opened.draft compiler (opened.laterPart [owner])) : p.compile compiler = .ok compiled := by
  have complete : (opened.draft compiler (opened.firstPart [items])).failure? = none ∧
      (opened.draft compiler (opened.laterPart [owner])).failure? = none := by decide
  have batches : p.batches compiler.config = [[items], [owner]] := by
    rw [Plan.batches, relations, limit]
    simp [chunksOf]
  have cut : p.isSplit compiler.config = true := by
    rw [Plan.isSplit, limit, relations]
    rfl
  have base : Statement.ofDraft compiler.dialect (p.firstDraft compiler) = .ok split.base := by
    rw [Plan.firstDraft, batches]
    exact (Sql.Draft.ofDraft_eq_ok_iff _ _ _).mpr
      ⟨(congrArg Sql.Draft.failure? first).trans complete.1, congrArg _ (congrArg _ first)⟩
  have written : p.split compiler = .ok split := by
    refine Plan.split_eq_ok_iff.mpr ⟨base, ?_, congrArg Entity.primaryKey entity.symm⟩
    rw [Plan.laterBatches, batches]
    refine .cons (Plan.followUp_eq_ok_iff.mpr ⟨?_, ?_⟩) .nil
    · rw [later]
      exact complete.2
    · rw [later]
      rfl
  have layout : p.layout = .ok compiled.layout := by
    rw [Plan.layout, relations, entity]
    rfl
  have subqueries : compiled.subqueries = p.subqueries := by
    rw [Plan.subqueries, relations, scalars.1, scalars.2]
    rfl
  refine Plan.compile_eq_ok_iff.mpr ⟨layout, subqueries, ?_⟩
  rw [if_pos cut]
  exact ⟨split, written, rfl⟩

theorem opened_compiled : opened.compile compiler = .ok compiled :=
  compile_eq rfl rfl rfl ⟨rfl, rfl⟩ rfl rfl

theorem notClosed_compiled : notClosed.compile compiler = .ok compiled :=
  compile_eq rfl rfl rfl ⟨rfl, rfl⟩ rfl rfl

end Stock

open Stock in
theorem compiled_eq_of_derive_shops :
    opened.filter ≠ notClosed.filter ∧ opened.compile compiler = .ok compiled ∧
      notClosed.compile compiler = .ok compiled ∧
      derive "app" opened compiled.query.base = derive "app" notClosed compiled.query.base ∧
      (opened.relations = notClosed.relations ∧ opened.columns = notClosed.columns) := by
  have different : opened.filter ≠ notClosed.filter := fun same =>
    absurd (congrArg Filter.clauses same) (by simp [opened, notClosed, Filter.and, Filter.add])
  have finite : opened.IsFinite := Plan.isFinite_of_unfiltered rfl rfl (by decide) rfl rfl
  have otherFinite : notClosed.IsFinite := Plan.isFinite_of_unfiltered rfl rfl (by decide) rfl rfl
  have hashed : material opened compiled.query.base = material notClosed compiled.query.base := rfl
  have table : opened.table = notClosed.table := rfl
  have same : derive "app" opened compiled.query.base =
      derive "app" notClosed compiled.query.base := by
    rw [derive, derive, hashed, table]
  obtain ⟨⟨-, relations, -, -, columns, -⟩, -⟩ := compiled_eq_of_derive rfl rfl finite otherFinite
    opened_compiled notClosed_compiled (fun _ => by rw [hashed]) same
  exact ⟨different, opened_compiled, notClosed_compiled, same, relations, columns⟩

end CacheKey
end EagerLoad
