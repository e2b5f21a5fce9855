import EagerLoad.Plan.Compile
import EagerLoad.Proofs.Plan.Parts
import EagerLoad.Proofs.Relation.Redacted
import EagerLoad.Run.Fallback
import Mathlib.Data.List.Forall2

/-! # Plans without their values

Two plans are the same but for their values if they are equal once redacted. They fail alike or are
written as the same texts, whatever keys their later batches and their relations are read by. -/
namespace EagerLoad

open Sql Sql.Draft

/-- With a fixed term in place of one that is not empty. -/
def Search.redacted (s : Search) : Search := { s with term := if s.term = "" then "" else "_" }

def Plan.redacted (p : Plan) : Plan :=
  { p with
    entity := p.entity.redacted
    relations := p.relations.map RelationRequest.redacted
    counts := p.counts.map CountRequest.redacted
    aggregates := p.aggregates.map AggregateRequest.redacted
    filter := p.filter.redacted
    having := p.having.redacted
    search := p.search.map Search.redacted
    locale := redactedLocale p.locale }

def Compiler.redacted (c : Compiler) : Compiler := { c with registry := c.registry.redacted }

def Part.redacted (part : Part) : Part :=
  { part with relations := part.relations.map RelationRequest.redacted }

@[simp] theorem Search.isActive_redacted (s : Search) : s.redacted.isActive = s.isActive := by
  obtain ⟨term, columns⟩ := s
  by_cases empty : term = ""
  · simp [isActive, redacted, empty]
  · simp [isActive, redacted, empty]

namespace Plan

variable (p : Plan) (c : Compiler) (part : Part)

theorem localization?_redacted : p.redacted.localization? c.redacted = p.localization? c := by
  unfold localization?
  rw [redacted, isSome_redactedLocale]
  rfl

theorem context_redacted : p.redacted.context c.redacted = (p.context c).redacted := by
  unfold context
  rw [redacted, isSome_redactedLocale]
  rfl

theorem qualifier_redacted : p.redacted.qualifier c.redacted = p.qualifier c := by
  unfold qualifier
  rw [localization?_redacted]
  rfl

theorem partColumns_redacted :
    p.redacted.partColumns c.redacted part.redacted = p.partColumns c part := by
  unfold partColumns
  rw [localization?_redacted]
  rfl

section Items

variable (columns : Columns)

theorem askedItems_redacted :
    (p.redacted.askedItems c.redacted part.redacted columns).map Draft.redacted =
      (p.askedItems c part columns).map Draft.redacted := by
  have entity : p.redacted.entity = p.entity.redacted := rfl
  have table : p.redacted.table = p.table := rfl
  have satellite : p.redacted.satelliteAlias = p.satelliteAlias := rfl
  have relations : part.redacted.relations = part.relations.map RelationRequest.redacted := rfl
  have scalars : part.redacted.scalars = part.scalars := rfl
  have counts : p.redacted.counts = p.counts.map CountRequest.redacted := rfl
  have aggregates : p.redacted.aggregates = p.aggregates.map AggregateRequest.redacted := rfl
  simp only [askedItems, entity, table, satellite, relations, scalars, counts, aggregates,
    context_redacted, List.map_append, apply_ite (List.map Draft.redacted), List.map_map,
    Function.comp_def, Subquery.relation_redacted, Subquery.count_redacted,
    Subquery.aggregate_redacted]

theorem selectItems_redacted :
    (p.redacted.selectItems c.redacted part.redacted columns).map Draft.redacted =
      (p.selectItems c part columns).map Draft.redacted := by
  have asked := p.askedItems_redacted c part columns
  have empty : (p.redacted.askedItems c.redacted part.redacted columns).isEmpty =
      (p.askedItems c part columns).isEmpty := by
    rw [← List.isEmpty_map (f := Draft.redacted), asked, List.isEmpty_map]
  rw [selectItems_eq, selectItems_eq, empty]
  split
  · rfl
  · exact asked

end Items

theorem satelliteJoin_redacted :
    (p.redacted.satelliteJoin c.redacted).redacted = (p.satelliteJoin c).redacted := by
  unfold satelliteJoin
  rw [localization?_redacted]
  cases p.localization? c with
  | none => rfl
  | some l =>
    have locale : p.redacted.locale = redactedLocale p.locale := rfl
    rw [locale]
    cases p.locale with
    | none => rfl
    | some locale => exact l.join_redacted _ _ _ locale

theorem groupSearch_redacted (e : Entity) (columns : List String) :
    groupSearch e.redacted columns = groupSearch e columns := by
  simp only [groupSearch, Entity.relation?_redacted, Option.isSome_map]

theorem searchDraft_redacted (s : Search) :
    (p.redacted.searchDraft c.redacted s.redacted).redacted = (p.searchDraft c s).redacted := by
  have columns : s.redacted.columns = s.columns := rfl
  have entity : p.redacted.entity = p.entity.redacted := rfl
  have table : p.redacted.table = p.table := rfl
  have dialect : c.redacted.dialect = c.dialect := rfl
  simp only [searchDraft, columns, entity, table, dialect, groupSearch_redacted, context_redacted,
    qualifier_redacted, redacted_append, redacted_cons, redacted_separated, List.map_append]
  generalize groupSearch p.entity s.columns = grouped
  rw [Subquery.redacted_searchTerms c.dialect s.redacted.pattern s.pattern, List.map_map, List.map_map]
  congr 4
  exact List.map_congr_left fun group _ => Subquery.search_redacted _ _ _ _ _ _ _

theorem tests_redacted :
    (p.redacted.tests c.redacted).map Draft.redacted = (p.tests c).map Draft.redacted := by
  have filter : p.redacted.filter = p.filter.redacted := rfl
  have search : p.redacted.search = p.search.map Search.redacted := rfl
  simp only [tests, filter, search, List.map_append, apply_ite (List.map Draft.redacted),
    Filter.hasConditions_redacted, qualifier_redacted, List.map_cons, redacted_append, redacted_cons,
    Filter.conditions_redacted]
  congr 1
  cases p.search with
  | none => rfl
  | some s =>
    simp only [Option.map_some, Search.isActive_redacted, apply_ite (List.map Draft.redacted),
      List.map_cons, searchDraft_redacted]

theorem redacted_clause (keyword separator : String) (items : List Draft) :
    (clause keyword separator items).redacted = clause keyword separator (items.map Draft.redacted) := by
  cases items with
  | nil => rfl
  | cons item rest => exact congrArg (_ :: ·) (redacted_separated separator (item :: rest))

theorem isSubqueryLabel_redacted (name : String) :
    p.redacted.isSubqueryLabel name = p.isSubqueryLabel name := by
  simp only [isSubqueryLabel, redacted, List.any_map]
  rfl

theorem emits_redacted (name : String) :
    p.redacted.emits part.redacted name = p.emits part name := by
  simp only [emits, redacted, Part.redacted, List.any_map]
  rfl

theorem orderTail_redacted (separator : String) (terms : List OrderTerm) :
    p.redacted.orderTail c.redacted part.redacted separator terms =
      p.orderTail c part separator terms := by
  induction terms generalizing separator with
  | nil => rfl
  | cons term rest ih =>
    simp only [orderTail, isSubqueryLabel_redacted, emits_redacted, qualifier_redacted, ih]

theorem clauses_redacted :
    (p.redacted.clauses c.redacted part.redacted).redacted = (p.clauses c part).redacted := by
  have having : p.redacted.having = p.having.redacted := rfl
  have order : p.redacted.order = p.order := rfl
  simp only [clauses, redacted_append, redacted_clause, tests_redacted, having, order,
    Filter.hasConditions_redacted, orderTail_redacted, redacted_ite, redacted_cons,
    Filter.conditions_redacted]
  rfl

/-- What is written of a part without its values depends on nothing but the plan without its. -/
theorem draft_redacted :
    (p.redacted.draft c.redacted part.redacted).redacted = (p.draft c part).redacted := by
  have locale : p.redacted.locale.isSome = p.locale.isSome := isSome_redactedLocale p.locale
  unfold draft
  rw [locale, localization?_redacted, partColumns_redacted, redacted_append, redacted_append,
    redacted_andThen, redacted_andThen]
  congr 1
  refine congrArg (andThen (p.partColumns c part)) (funext fun columns => ?_)
  simp only [redacted_append, redacted_cons, redacted_separated, selectItems_redacted, redacted_ite,
    satelliteJoin_redacted, clauses_redacted]
  rfl

theorem layout_redacted : p.redacted.layout = p.layout := by
  have shape (r : RelationRequest) : r.redacted.shape p.redacted.entity = r.shape p.entity :=
    r.shape_redacted p.entity
  have relations : p.redacted.relations = p.relations.map RelationRequest.redacted := rfl
  unfold layout
  rw [relations, List.mapM_map]
  exact congrArg (p.relations.mapM ·) (funext fun r => congrArg (Except.map _) (shape r))

theorem unsplitDraft_redacted :
    (p.redacted.unsplitDraft c.redacted).redacted = (p.unsplitDraft c).redacted :=
  p.draft_redacted c p.wholePart

theorem baseOnlyDraft_redacted (forced : List String) :
    (p.redacted.baseOnlyDraft c.redacted forced).redacted = (p.baseOnlyDraft c forced).redacted :=
  p.draft_redacted c (basePart forced)

theorem counted_redacted : p.redacted.counted = p.counted.redacted := by
  have having : p.redacted.having = p.having.redacted := rfl
  simp only [counted, having, Filter.hasConditions_redacted, apply_ite redacted]
  rfl

theorem countDraft_redacted :
    (p.redacted.countDraft c.redacted).redacted = (p.countDraft c).redacted := by
  rw [countDraft, counted_redacted]
  exact p.counted.draft_redacted c
    { relations := [], scalars := true, forced := [], byKeys := false, bounded := false }

theorem existsDraft_redacted :
    (p.redacted.existsDraft c.redacted).redacted = (p.existsDraft c).redacted :=
  p.probed.baseOnlyDraft_redacted c []

end Plan

theorem chunksOf_map (size : Nat) (f : α → β) (items : List α) :
    chunksOf size (items.map f) = (chunksOf size items).map (List.map f) := by
  fun_induction chunksOf size items with
  | case1 => rw [List.map_nil, chunksOf, List.map_nil]
  | case2 x rest ih =>
    rw [List.map_cons, chunksOf, List.map_cons, ← List.map_drop, ih, ← List.map_take, List.map_cons]

theorem mapM_map_result (f : α → Except ε β) (g : β → γ) (items : List α) :
    (items.mapM f).map (List.map g) = items.mapM fun item => (f item).map g := by
  induction items with
  | nil => rfl
  | cons item rest ih =>
    rw [List.mapM_cons, List.mapM_cons, ← ih]
    cases f item with
    | error e => rfl
    | ok first => cases rest.mapM f <;> rfl

/-- Two results one after the other are the same in what is kept of both. -/
theorem both_map_congr {x x' : Except ε α} {y y' : Except ε β} {f : α → α} {g : β → β}
    {both : α → β → γ} {kept : γ → γ} (first : x.map f = x'.map f) (second : y.map g = y'.map g)
    (h : ∀ a b, kept (both a b) = both (f a) (g b)) :
    (x >>= fun a => y >>= fun b => pure (both a b)).map kept =
      (x' >>= fun a => y' >>= fun b => pure (both a b)).map kept := by
  have whole (x : Except ε α) (y : Except ε β) :
      (x >>= fun a => y >>= fun b => pure (both a b)).map kept =
        (x.map f >>= fun a => y.map g >>= fun b => pure (both a b)) := by
    cases x with
    | error e => rfl
    | ok a =>
      cases y with
      | error e => rfl
      | ok b => exact congrArg Except.ok (h a b)
  rw [whole, whole, first, second]

def FollowUp.redacted (f : FollowUp) : FollowUp := { f with template := f.template.redacted }

def Split.redacted (s : Split) : Split :=
  { s with base := s.base.redacted, followUps := s.followUps.map FollowUp.redacted }

def CompiledQuery.redacted : CompiledQuery → CompiledQuery
  | single s => single s.redacted
  | split s => split s.redacted

def CompiledPlan.redacted (compiled : CompiledPlan) : CompiledPlan :=
  { compiled with query := compiled.query.redacted }

/-- The texts of all statements of a query when its later batches are bound to some keys. -/
def CompiledQuery.texts (d : Dialect) (keys : List DbValue) : CompiledQuery → List String
  | single s => [s.sql]
  | split s => s.base.sql :: s.followUps.map fun followUp => (followUp.bind d keys).sql

theorem FollowUp.text_bind (f : FollowUp) (d : Dialect) {keys keys' : List DbValue}
    (length : keys.length = keys'.length) :
    (f.redacted.bind d keys).sql = (f.bind d keys').sql := by
  have marks : keys.map (fun _ => "?") = keys'.map fun _ => "?" := by
    rw [List.map_const', List.map_const', length]
  simp only [FollowUp.bind, redacted, Fragment.redacted, Statement.ofFragment, marks]

theorem CompiledQuery.texts_redacted (q : CompiledQuery) (d : Dialect) {keys keys' : List DbValue}
    (length : keys.length = keys'.length) : q.redacted.texts d keys = q.texts d keys' := by
  cases q with
  | single s => rfl
  | split s =>
    simp only [redacted, Split.redacted, texts, List.map_map]
    exact congrArg (_ :: ·) (List.map_congr_left fun f _ => f.text_bind d length)

namespace Plan

variable (p : Plan) (c : Compiler)

theorem unsplit_redacted :
    (p.redacted.unsplit c.redacted).map Statement.redacted = (p.unsplit c).map Statement.redacted :=
  ofDraft_congr c.dialect (p.unsplitDraft_redacted c)

theorem followUp_redacted (relations : List RelationRequest) :
    (p.redacted.followUp c.redacted (relations.map RelationRequest.redacted)).map FollowUp.redacted =
      (p.followUp c relations).map FollowUp.redacted := by
  have template := compile_congr c.dialect (p.draft_redacted c (p.laterPart relations))
  have labels : (relations.map RelationRequest.redacted).map RelationRequest.label =
      relations.map RelationRequest.label := List.map_map
  have whole := congrArg (Except.map (FollowUp.mk (relations.map RelationRequest.label))) template
  unfold followUp
  rw [labels, except_map_map, except_map_map]
  rw [except_map_map, except_map_map] at whole
  exact whole

theorem laterBatches_redacted (config : Config) :
    p.redacted.laterBatches config =
      (p.laterBatches config).map (List.map RelationRequest.redacted) := by
  have relations : p.redacted.relations = p.relations.map RelationRequest.redacted := rfl
  rw [laterBatches, laterBatches, batches, relations, chunksOf_map, List.map_drop]
  rfl

theorem firstDraft_redacted :
    (p.redacted.firstDraft c.redacted).redacted = (p.firstDraft c).redacted := by
  have relations : p.redacted.relations = p.relations.map RelationRequest.redacted := rfl
  have first : (p.redacted.batches c.redacted.config).headD [] =
      ((p.batches c.config).headD []).map RelationRequest.redacted := by
    rw [batches, batches, relations, chunksOf_map]
    exact List.headD_map (a := [])
  rw [firstDraft, first]
  exact p.draft_redacted c (p.firstPart _)

theorem split_redacted :
    (p.redacted.split c.redacted).map Split.redacted = (p.split c).map Split.redacted := by
  have base := ofDraft_congr c.dialect (p.firstDraft_redacted c)
  have later : ((p.redacted.laterBatches c.redacted.config).mapM (p.redacted.followUp c.redacted)).map
        (List.map FollowUp.redacted) =
      ((p.laterBatches c.config).mapM (p.followUp c)).map (List.map FollowUp.redacted) := by
    rw [laterBatches_redacted, mapM_map_result, mapM_map_result, List.mapM_map]
    exact congrArg ((p.laterBatches c.config).mapM ·) (funext (p.followUp_redacted c))
  exact both_map_congr base later fun _ _ => rfl

theorem compile_redacted :
    (p.redacted.compile c.redacted).map CompiledPlan.redacted =
      (p.compile c).map CompiledPlan.redacted := by
  have layout : p.redacted.layout.map id = p.layout.map id := congrArg _ p.layout_redacted
  have relations : p.redacted.relations = p.relations.map RelationRequest.redacted := rfl
  have splits : p.redacted.isSplit c.redacted.config = p.isSplit c.config := by
    rw [isSplit, isSplit, relations, List.length_map]
    rfl
  have subqueries : p.redacted.subqueries = p.subqueries := by
    simp only [subqueries, redacted, List.length_map]
  have whole : ((p.redacted.split c.redacted).map CompiledQuery.split).map CompiledQuery.redacted =
      ((p.split c).map CompiledQuery.split).map CompiledQuery.redacted := by
    have parts := congrArg (Except.map CompiledQuery.split) (p.split_redacted c)
    rw [except_map_map, except_map_map] at parts ⊢
    exact parts
  have alone : ((p.redacted.unsplit c.redacted).map CompiledQuery.single).map CompiledQuery.redacted =
      ((p.unsplit c).map CompiledQuery.single).map CompiledQuery.redacted := by
    have statement := congrArg (Except.map CompiledQuery.single) (p.unsplit_redacted c)
    rw [except_map_map, except_map_map] at statement ⊢
    exact statement
  unfold compile
  rw [subqueries, splits]
  by_cases large : p.isSplit c.config = true
  · simp only [if_pos large]
    exact both_map_congr layout whole fun _ _ => rfl
  · simp only [if_neg large]
    exact both_map_congr layout alone fun _ _ => rfl

theorem count_redacted :
    (p.redacted.count c.redacted).map Statement.redacted = (p.count c).map Statement.redacted := by
  have inner := congrArg (Except.map fun inner : Statement => Statement.mk
    ("SELECT COUNT(*) AS " ++ c.dialect.quote "aggregate" ++ " FROM (" ++ inner.sql ++ ") AS " ++
      c.dialect.quote "aggregate_table") inner.bindings)
    (ofDraft_congr c.dialect (p.countDraft_redacted c))
  unfold count
  rw [except_map_map, except_map_map] at inner ⊢
  exact inner

theorem baseOnly_redacted (forced : List String) :
    (p.redacted.baseOnly c.redacted forced).map Statement.redacted =
      (p.baseOnly c forced).map Statement.redacted :=
  ofDraft_congr c.dialect (p.baseOnlyDraft_redacted c forced)

theorem existence_redacted :
    (p.redacted.existence c.redacted).map Statement.redacted =
      (p.existence c).map Statement.redacted :=
  ofDraft_congr c.dialect (p.existsDraft_redacted c)

end Plan

theorem Fallback.declaredSelection_redacted (registry : Registry) (e : Entity) (r : RelationRequest) :
    declaredSelection registry.redacted e.redacted r.redacted = declaredSelection registry e r := by
  have nested : r.redacted.isNested = r.isNested := rfl
  have columns : r.redacted.columns = r.columns := rfl
  have name : r.redacted.name = r.name := rfl
  unfold declaredSelection
  rw [columns]
  cases r.columns with
  | all => rfl
  | columns columns =>
    simp only [nested, name, Entity.relation?_redacted]
    refine congrArg (ite _ _) ?_
    cases e.relation? r.name with
    | none => rfl
    | some relation =>
      simp only [Option.map_some, Relation.related_redacted, Registry.resolve_redacted,
        except_map_map]
      rfl

theorem texts_eq_of_redacted_eq {x y : Except CompileError Statement}
    (same : x.map Statement.redacted = y.map Statement.redacted) :
    x.map Statement.sql = y.map Statement.sql := by
  have texts := congrArg (Except.map Statement.sql) same
  rw [except_map_map, except_map_map] at texts
  exact texts

/-- Compiled plans that are the same but for their bindings are written alike, whatever is bound to their
later batches. -/
theorem texts_eq_of_compiled_eq {x y : Except CompileError CompiledPlan} {d d' : Dialect}
    {keys keys' : List DbValue}
    (same : x.map CompiledPlan.redacted = y.map CompiledPlan.redacted) (dialect : d = d')
    (length : keys.length = keys'.length) :
    x.map (fun whole => (whole.layout, whole.query.texts d keys)) =
      y.map fun whole => (whole.layout, whole.query.texts d' keys') := by
  subst dialect
  have texts := congrArg (Except.map fun whole : CompiledPlan =>
    (whole.layout, whole.query.texts d keys)) same
  have own (whole : CompiledPlan) :
      whole.redacted.query.texts d keys = whole.query.texts d keys :=
    whole.query.texts_redacted d rfl
  have other (whole : CompiledPlan) :
      whole.redacted.query.texts d keys = whole.query.texts d keys' :=
    whole.query.texts_redacted d length
  rw [except_map_map, except_map_map] at texts
  calc x.map (fun whole => (whole.layout, whole.query.texts d keys))
    _ = x.map (fun whole => (whole.redacted.layout, whole.redacted.query.texts d keys)) := by
      simp only [own]; rfl
    _ = y.map (fun whole => (whole.redacted.layout, whole.redacted.query.texts d keys)) := texts
    _ = y.map (fun whole => (whole.layout, whole.query.texts d keys')) := by
      simp only [other]; rfl

theorem forall₂_of_map_eq {f : α → β} {R : α → α → Prop} (h : ∀ a b, f a = f b → R a b)
    {xs ys : List α} (same : xs.map f = ys.map f) : List.Forall₂ R xs ys :=
  (map_eq_map_iff_forall₂.mp same).imp h

/-- Two plans fail with the same error or are written as the same texts: as they are run, as their
base rows alone, to count and to probe, and to read their relations by as many keys. -/
structure SameTexts (p q : Plan) (c c' : Compiler) (keys keys' : List DbValue) : Prop where
  compiled : ((p.compile c).map fun whole => (whole.layout, whole.query.texts c.dialect keys)) =
    (q.compile c').map fun whole => (whole.layout, whole.query.texts c'.dialect keys')
  unsplit : (p.unsplit c).map Statement.sql = (q.unsplit c').map Statement.sql
  baseOnly (forced : List String) :
    (p.baseOnly c forced).map Statement.sql = (q.baseOnly c' forced).map Statement.sql
  count : (p.count c).map Statement.sql = (q.count c').map Statement.sql
  existence : (p.existence c).map Statement.sql = (q.existence c').map Statement.sql
  relations : List.Forall₂ (fun r r' =>
      Fallback.declaredSelection c.registry p.entity r =
        Fallback.declaredSelection c'.registry q.entity r' ∧
      ∀ columns,
        (Statement.ofDraft c.dialect (Keyed.relation (p.context c) p.entity r columns keys)).map
            Statement.sql =
          (Statement.ofDraft c'.dialect
            (Keyed.relation (q.context c') q.entity r' columns keys')).map Statement.sql)
    p.relations q.relations
  counts : List.Forall₂ (fun a a' =>
      (Statement.ofDraft c.dialect (Keyed.count (p.context c) p.entity a keys)).map Statement.sql =
        (Statement.ofDraft c'.dialect (Keyed.count (q.context c') q.entity a' keys')).map
          Statement.sql)
    p.counts q.counts
  aggregates : List.Forall₂ (fun a a' =>
      (Statement.ofDraft c.dialect (Keyed.aggregate (p.context c) p.entity a keys)).map
          Statement.sql =
        (Statement.ofDraft c'.dialect (Keyed.aggregate (q.context c') q.entity a' keys')).map
          Statement.sql)
    p.aggregates q.aggregates

namespace Plan

/-- Values have no part in the texts of statements: plans that are the same but for their values, in
registries that are the same but for the classes of their entities, are written alike. -/
theorem same_texts {p q : Plan} {c c' : Compiler} {keys keys' : List DbValue}
    (plans : p.redacted = q.redacted) (compilers : c.redacted = c'.redacted)
    (length : keys.length = keys'.length) : SameTexts p q c c' keys keys' := by
  have dialect : c.dialect = c'.dialect :=
    show c.redacted.dialect = c'.redacted.dialect by rw [compilers]
  have entity : p.entity.redacted = q.entity.redacted := congrArg (fun p : Plan => p.entity) plans
  have registry : c.registry.redacted = c'.registry.redacted :=
    congrArg (fun c : Compiler => c.registry) compilers
  have context : (p.context c).redacted = (q.context c').redacted := by
    rw [← context_redacted, plans, compilers, context_redacted]
  have hidden : keys.map (fun _ => DbValue.hidden) = keys'.map fun _ => .hidden := by
    rw [List.map_const', List.map_const', length]
  constructor
  case compiled =>
    exact texts_eq_of_compiled_eq
      (by rw [← compile_redacted, plans, compilers, compile_redacted]) dialect length
  case unsplit =>
    exact texts_eq_of_redacted_eq (by rw [← unsplit_redacted, plans, compilers, unsplit_redacted])
  case baseOnly =>
    intro forced
    exact texts_eq_of_redacted_eq (by rw [← baseOnly_redacted, plans, compilers, baseOnly_redacted])
  case count =>
    exact texts_eq_of_redacted_eq (by rw [← count_redacted, plans, compilers, count_redacted])
  case existence =>
    exact texts_eq_of_redacted_eq
      (by rw [← existence_redacted, plans, compilers, existence_redacted])
  case relations =>
    refine forall₂_of_map_eq (fun r r' same => ⟨?_, fun columns => ?_⟩)
      (congrArg (fun p : Plan => p.relations) plans)
    · rw [← Fallback.declaredSelection_redacted, same, entity, registry,
        Fallback.declaredSelection_redacted]
    · rw [← dialect]
      refine texts_eq_of_redacted_eq (ofDraft_congr c.dialect ?_)
      rw [← Keyed.relation_redacted, context, entity, same, hidden, Keyed.relation_redacted]
  case counts =>
    refine forall₂_of_map_eq (fun a a' same => ?_) (congrArg (fun p : Plan => p.counts) plans)
    rw [← dialect]
    refine texts_eq_of_redacted_eq (ofDraft_congr c.dialect ?_)
    rw [← Keyed.count_redacted, context, entity, same, hidden, Keyed.count_redacted]
  case aggregates =>
    refine forall₂_of_map_eq (fun a a' same => ?_) (congrArg (fun p : Plan => p.aggregates) plans)
    rw [← dialect]
    refine texts_eq_of_redacted_eq (ofDraft_congr c.dialect ?_)
    rw [← Keyed.aggregate_redacted, context, entity, same, hidden, Keyed.aggregate_redacted]

/-- Tickets and what hangs off them, one relation in a statement. -/
def desk (morphName : String) : Compiler :=
  { dialect := .postgresql
    registry :=
      [("Comment", { type := "Comment", table := "comments", columns := ["body"] }),
        ("Image", { type := "Image", table := "images", morphName := some morphName })]
    memo := []
    config := { maxRelations := 1 } }

/-- The tickets of an owner that mention a word, with their comments of some states and their images. -/
def tickets (owner word morphName : String) (state : Int64) : Plan :=
  { entity :=
      { type := "Ticket", table := "tickets", columns := ["title"], morphName := some morphName
        relations :=
          [("comments", .hasMany "Comment" "ticket" "id"),
            ("images", .morphMany "Image" ⟨"subject_type", "subject_id", "id"⟩)] }
    relations :=
      [{ name := "comments", kind := .collection
         filter := some (({} : Filter).and (.among "state" [.int64 state, .int64 (state + 1)] false)) },
        { name := "images", kind := .collection }]
    counts := [{ relation := "comments" }]
    filter := ({} : Filter).and (.compare "owner" .equal (.text owner))
    search := some ⟨word, ["title", "comments.body"]⟩ }

theorem same_texts_tickets :
    ((tickets "ann" "lean" "ticket" 1).compile (desk "image")).toOption.map
        (fun whole => (whole.query.texts .postgresql [.int64 1, .int64 2]).length) = some 2 ∧
      SameTexts (tickets "ann" "lean" "ticket" 1) (tickets "' OR 1 = 1 --" "%" "?" 7)
        (desk "image") (desk "\"") [.int64 1, .int64 2] [.text "')", .null] :=
  ⟨by decide +kernel, same_texts rfl rfl rfl⟩

end Plan
end EagerLoad
