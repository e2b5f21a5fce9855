import EagerLoad.Proofs.Plan.Cited
import EagerLoad.Proofs.Plan.Quoted
import EagerLoad.Proofs.Relation.Qualified

/-! # Tables in scope

If a caller leaves all columns unqualified, but those of a search that name a declared relation, every
reference of every statement is to a table that the statement reads. Outside of its subqueries a statement
refers to the base table, to the satellite that it joins, and to the plan's own joins. -/
namespace EagerLoad

open Sql Sql.Draft

/-- Whether a column is one of a declared relation, as its name before the first point says. -/
def Entity.Declares (e : Entity) (column : String) : Prop :=
  ∃ relation field, Text.splitFirst? '.' column.toList = some (relation, field) ∧
    (e.relation? (String.ofList relation)).isSome = true

/-- Keys are written as signs and commas. -/
theorem point_notMem_bindList (d : Dialect) (keys : List DbValue) : '.' ∉ (bindList keys).text d := by
  rw [text_bindList]
  induction keys with
  | nil => decide
  | cons key rest ih =>
    cases rest with
    | nil => simp
    | cons next others =>
      rw [List.map_cons, List.map_cons, String.intercalate_cons_cons]
      simpa using ih

/-- A follow-up is written as its template and the list of its keys, which it closes. -/
theorem FollowUp.numbered_bind (f : FollowUp) (d : Dialect) (keys : List DbValue) :
    Numbered (f.template.sql.toList ++ ((bindList keys).text d ++ [')'])) (f.bind d keys).sql.toList := by
  have bound := Numbered.ofFragment d
    ⟨f.template.sql ++ ", ".intercalate (keys.map fun _ => "?") ++ ")", f.template.bindings ++ keys⟩
  rw [String.toList_append, String.toList_append, List.append_assoc, ← text_bindList d] at bound
  exact bound

namespace Plan

variable (p : Plan) (c : Compiler)

/-- The columns that a plan names in filters, orders, groups and joins, at any depth. -/
def mentions : List String :=
  p.filter.mentions ++ p.having.mentions ++ p.order.map OrderTerm.column ++ p.groupBy ++
    p.joins.flatMap (fun j => [j.first, j.second]) ++ p.relations.flatMap (fun r => filterColumns r.filter) ++
    p.counts.flatMap (fun n => filterColumns n.filter) ++ p.aggregates.flatMap fun a => filterColumns a.filter

/-- Whether a plan leaves it to compilation which tables its columns belong to, except for those of a search
that name a declared relation. -/
structure Unqualified : Prop where
  mentions : ∀ x ∈ p.mentions, Undotted x
  searched : ∀ s, p.search = some s → ∀ x ∈ s.columns, Undotted x ∨ p.entity.Declares x

/-- The texts of the subqueries that a plan asks for. -/
inductive Subselect : List Char → Prop where
  | relation {r : RelationRequest} {f : Fragment} (known : r ∈ p.relations)
      (compiled : (Subquery.relation (p.context c) p.entity p.table r).compile c.dialect = .ok f) :
      Subselect f.sql.toList
  | count {n : CountRequest} {f : Fragment} (known : n ∈ p.counts)
      (compiled : (Subquery.count (p.context c) p.entity p.table n).compile c.dialect = .ok f) :
      Subselect f.sql.toList
  | aggregate {a : AggregateRequest} {f : Fragment} (known : a ∈ p.aggregates)
      (compiled : (Subquery.aggregate (p.context c) p.entity p.table a).compile c.dialect = .ok f) :
      Subselect f.sql.toList
  | search {s : Search} {group : String × List String} {f : Fragment} (searched : p.search = some s)
      (known : group ∈ (groupSearch p.entity s.columns).2)
      (compiled : (Subquery.search (p.context c) p.entity p.table group.1 group.2 s.pattern).compile c.dialect =
        .ok f) :
      Subselect f.sql.toList

/-- The tables that a statement reads outside of its subqueries, with what it introduces them by. -/
inductive Reaches (text : List Char) : String → Prop where
  | base (written : (" FROM " ++ c.dialect.quote p.table).toList <:+: text) : Reaches text p.table
  | satellite {l : Localization} (found : p.localization? c = some l)
      (written : (" LEFT JOIN " ++ c.dialect.quote l.satellite ++ " AS " ++ c.dialect.quote p.satelliteAlias ++
        " ON ").toList <:+: text) :
      Reaches text p.satelliteAlias
  | joined {j : Join} (known : j ∈ p.joins)
      (written : (" " ++ j.kind.sql ++ " " ++ c.dialect.quote j.table ++ " ON ").toList <:+: text) :
      Reaches text j.table

theorem Reaches.mono {p : Plan} {c : Compiler} {text whole : List Char} {name : String}
    (reached : p.Reaches c text name) (within : text <:+: whole) : p.Reaches c whole name := by
  cases reached with
  | base written => exact .base (written.trans within)
  | satellite found written => exact .satellite found (written.trans within)
  | joined known written => exact .joined known (written.trans within)

/-- Whether all references of a statement outside of its subqueries are to tables that it reads. -/
def RefersToRead (text : List Char) : Prop :=
  Qualifies c.dialect (p.Reaches c text) (fun piece => ∃ fragment, p.Subselect c fragment ∧ Numbered fragment piece)
    text

section References

variable {p c} {part : Part} {columns : Columns} {scope : String → Prop}

theorem localized_force (forced : List String) (columns : Columns) :
    (force columns forced).localized = columns.localized := by
  induction forced generalizing columns with
  | nil => rfl
  | cons column rest ih =>
    rw [force, List.foldl_cons, ← force, ih]
    split <;> rfl

/-- Columns of the satellite are selected only where the satellite is joined. -/
theorem localized_of_partColumns (resolved : p.partColumns c part = .ok columns) :
    columns.localized = [] ∨ part.byKeys = false ∧ (p.localization? c).isSome = true := by
  obtain ⟨own, selects, rfl⟩ := map_eq_ok_iff.mp resolved
  rw [localized_force]
  split at selects
  · obtain rfl := Except.ok.inj selects
    exact .inl rfl
  · rename_i whole
    cases found : p.localization? c with
    | some l => exact .inr ⟨by simpa using whole, rfl⟩
    | none =>
      rw [found] at selects
      exact .inl (Columns.localized_of_resolve selects)

/-- A search looks for its own columns among those of the base, unless they name a declared relation. -/
theorem own_of_groupSearch (e : Entity) (columns : List String) :
    ∀ x ∈ (groupSearch e columns).1, x ∈ columns ∧ ¬e.Declares x := by
  unfold groupSearch
  apply List.foldlRecOn (motive := fun (grouped : List String × List (String × List String)) =>
    ∀ x ∈ grouped.1, x ∈ columns ∧ ¬e.Declares x)
  · exact fun x found => absurd found List.not_mem_nil
  rintro ⟨own, related⟩ before column listed x found
  have added (undeclared : ¬e.Declares column) (here : x ∈ own ++ [column]) : x ∈ columns ∧ ¬e.Declares x := by
    rcases List.mem_append.mp here with earlier | last
    · exact before x earlier
    · obtain rfl := List.mem_singleton.mp last
      exact ⟨listed, undeclared⟩
  dsimp only at found
  split at found
  · rename_i relation field cut
    split at found
    case isTrue => exact before x found
    case isFalse undeclared =>
      refine added ?_ found
      rintro ⟨other, _, again, declared⟩
      obtain ⟨rfl, -⟩ := Prod.mk.inj (Option.some.inj (cut.symm.trans again))
      exact undeclared declared
  · rename_i whole
    refine added ?_ found
    rintro ⟨_, _, cut, -⟩
    exact absurd (whole.symm.trans cut) (by simp)

section InScope

variable (unqualified : p.Unqualified) (base : scope p.table)
include base

theorem through_inScope {x : String} (undotted : Undotted x)
    (satellite : (p.localization? c).isSome = true → scope p.satelliteAlias) :
    (Reference.through (p.qualifier c) x).InScope c.dialect scope (p.Subselect c) := by
  refine .localized undotted base fun field => satellite ?_
  cases found : p.localization? c with
  | none =>
    rw [found] at field
    exact absurd field List.not_mem_nil
  | some l => rfl

theorem selectReferences_inScope (resolved : p.partColumns c part = .ok columns)
    (complete : ∀ item ∈ p.askedItems c part columns, item.failure? = none)
    (known : part.relations ⊆ p.relations)
    (satellite : part.byKeys = false → (p.localization? c).isSome = true → scope p.satelliteAlias) :
    ∀ ref ∈ p.selectReferences c part columns, ref.InScope c.dialect scope (p.Subselect c) := by
  have compiled {item : Draft} (done : item.failure? = none) :
      item.compile c.dialect = .ok (item.fragment c.dialect) := (Draft.compile_eq_ok_iff _ _ _).mpr ⟨done, rfl⟩
  have asked {item : Draft} := p.mem_askedItems c part columns item
  unfold selectReferences
  split
  · exact List.forall_mem_singleton.mpr base
  · simp only [askedReferences, Columns.references, List.forall_mem_append, List.forall_mem_map]
    refine ⟨⟨⟨fun x _ => base, fun x listed => ?_⟩, fun r listed => ?_⟩, ?_⟩
    · rcases localized_of_partColumns resolved with none | ⟨whole, some⟩
      · exact absurd (none ▸ listed) List.not_mem_nil
      · exact satellite whole some
    · have done := complete _ (asked.mpr (.inr (.inl (List.mem_map_of_mem listed))))
      exact .relation (known listed) (compiled done)
    · split
      case isFalse => exact List.forall_mem_nil _
      case isTrue scalars =>
        simp only [List.forall_mem_append, List.forall_mem_map]
        constructor
        · intro n listed
          have done := complete _ (asked.mpr (.inr (.inr ⟨scalars, .inl (List.mem_map_of_mem listed)⟩)))
          exact .count listed (compiled done)
        · intro a listed
          have done := complete _ (asked.mpr (.inr (.inr ⟨scalars, .inr (List.mem_map_of_mem listed)⟩)))
          exact .aggregate listed (compiled done)

variable (satellite : (p.localization? c).isSome = true → scope p.satelliteAlias)
include satellite

theorem satelliteReferences_inScope :
    ∀ ref ∈ p.satelliteReferences c, ref.InScope c.dialect scope (p.Subselect c) := by
  unfold satelliteReferences
  cases found : p.localization? c with
  | none => exact List.forall_mem_nil _
  | some l =>
    have joined := satellite (found ▸ rfl)
    cases p.locale with
    | none => exact List.forall_mem_nil _
    | some locale =>
      exact List.forall_mem_cons.mpr ⟨base, List.forall_mem_cons.mpr ⟨joined, List.forall_mem_singleton.mpr joined⟩⟩

include unqualified

theorem searchReferences_inScope {s : Search} (searched : p.search = some s)
    (complete : ∀ group ∈ (groupSearch p.entity s.columns).2,
      (Subquery.search (p.context c) p.entity p.table group.1 group.2 s.pattern).failure? = none) :
    ∀ ref ∈ p.searchReferences c s, ref.InScope c.dialect scope (p.Subselect c) := by
  have own : ∀ x ∈ (groupSearch p.entity s.columns).1, Undotted x := by
    intro x listed
    obtain ⟨asked, undeclared⟩ := own_of_groupSearch p.entity s.columns x listed
    exact (unqualified.searched s searched x asked).resolve_right undeclared
  unfold searchReferences
  simp only [List.forall_mem_append, List.forall_mem_map]
  constructor
  · exact fun x listed => through_inScope base (own x listed) satellite
  · intro group listed
    exact .search searched listed ((Draft.compile_eq_ok_iff _ _ _).mpr ⟨complete group listed, rfl⟩)

theorem testReferences_inScope (complete : (p.clauses c part).failure? = none) :
    ∀ ref ∈ (p.testReferences c).flatten, ref.InScope c.dialect scope (p.Subselect c) := by
  have none : ∀ ref ∈ ([] : List (List Reference)).flatten, ref.InScope c.dialect scope (p.Subselect c) :=
    List.forall_mem_nil _
  have filter : ∀ x ∈ p.filter.mentions, Undotted x :=
    fun x named => unqualified.mentions x (by simp [mentions, named])
  unfold testReferences
  rw [List.flatten_append, List.flatten_append]
  refine List.forall_mem_append.mpr ⟨List.forall_mem_append.mpr ⟨?_, ?_⟩, ?_⟩
  · split
    · exact List.forall_mem_singleton.mpr base
    · exact none
  · split
    · rw [List.flatten_singleton]
      exact List.forall_mem_map.mpr fun x named => through_inScope base (filter x named) satellite
    · exact none
  · cases searched : p.search with
    | none => exact none
    | some s =>
      dsimp only
      split
      case isTrue active =>
        rw [List.flatten_singleton]
        exact searchReferences_inScope unqualified base satellite searched
          (search_complete complete searched active)
      case isFalse => exact none

theorem tailReferences_inScope {terms : List OrderTerm} (known : terms ⊆ p.order) :
    ∀ ref ∈ p.tailReferences c part terms, ref.InScope c.dialect scope (p.Subselect c) := by
  induction terms with
  | nil => exact List.forall_mem_nil _
  | cons term rest ih =>
    obtain ⟨here, later⟩ := List.cons_subset.mp known
    have undotted : Undotted term.column := by
      apply unqualified.mentions
      simp only [mentions, List.mem_append, List.mem_map]
      exact .inl (.inl (.inl (.inl (.inl (.inr ⟨term, here, rfl⟩)))))
    have next := ih later
    unfold tailReferences
    split
    · exact List.forall_mem_cons.mpr ⟨through_inScope base undotted satellite, next⟩
    · split
      · exact List.forall_mem_cons.mpr ⟨.bare undotted, next⟩
      · exact next

theorem clauseReferences_inScope (complete : (p.clauses c part).failure? = none)
    (joined : ∀ j ∈ p.joins, scope j.table) :
    ∀ ref ∈ p.clauseReferences c part, ref.InScope c.dialect scope (p.Subselect c) := by
  have groups : ∀ x ∈ p.groupBy, Undotted x := fun x named => unqualified.mentions x (by simp [mentions, named])
  have having : ∀ x ∈ p.having.mentions, Undotted x :=
    fun x named => unqualified.mentions x (by simp [mentions, named])
  have sides {j : Join} (listed : j ∈ p.joins) : Undotted j.first ∧ Undotted j.second := by
    have named : ∀ x ∈ [j.first, j.second], x ∈ p.mentions := by
      intro x side
      simp only [mentions, List.mem_append, List.mem_flatMap]
      exact .inl (.inl (.inl (.inr ⟨j, listed, side⟩)))
    exact ⟨unqualified.mentions _ (named _ List.mem_cons_self),
      unqualified.mentions _ (named _ (List.mem_cons_of_mem _ List.mem_cons_self))⟩
  simp only [clauseReferences, List.forall_mem_append]
  refine ⟨⟨⟨⟨?_, testReferences_inScope unqualified base satellite complete⟩, ?_⟩, ?_⟩,
    tailReferences_inScope unqualified base satellite (List.Subset.refl _)⟩
  · intro ref cited
    obtain ⟨j, listed, side⟩ := List.mem_flatMap.mp cited
    rcases List.mem_pair.mp side with rfl | rfl
    · exact .ofTable (sides listed).1 base
    · exact .ofTable (sides listed).2 (joined j listed)
  · exact List.forall_mem_map.mpr fun x listed => .ofTable (groups x listed) base
  · exact List.forall_mem_map.mpr fun x listed => .bare (having x listed)

end InScope

end References

section Statements

variable {p c} {part : Part} {text : List Char}

theorem clauses_within {columns : Columns} (whole : part.byKeys = false)
    (resolved : p.partColumns c part = .ok columns) : p.clauses c part <:+: p.draft c part := by
  unfold draft
  rw [resolved, andThen, whole, if_neg Bool.false_ne_true]
  refine List.IsInfix.trans ?_ (List.suffix_append _ _).isInfix
  exact ((List.suffix_append _ _).trans (List.suffix_append _ _)).isInfix

/-- A statement introduces the tables that it reads, wherever its placeholders are numbered. -/
theorem reaches_of_draft (complete : (p.draft c part).failure? = none)
    (numbers : Numbered ((p.draft c part).text c.dialect) text) :
    p.Reaches c text p.table ∧ (part.byKeys = false →
      ((p.localization? c).isSome = true → p.Reaches c text p.satelliteAlias) ∧
        ∀ j ∈ p.joins, p.Reaches c text j.table) := by
  obtain ⟨columns, resolved, -⟩ := (p.draft_complete_iff c part).mp complete
  have introduced {piece : Draft} (within : piece <:+: p.draft c part)
      (plain : ∀ step ∈ piece, (∃ name, step = .name name) ∨ '?' ∉ (step.sql c.dialect).toList) :
      piece.text c.dialect <:+: text := infix_numbered within complete plain numbers
  have table : [.text " FROM ", .name p.table] <:+: p.draft c part := by
    unfold draft
    rw [resolved, andThen]
    refine List.IsInfix.trans ?_ (List.suffix_append _ _).isInfix
    exact List.infix_append _ _ _
  refine ⟨.base ?_, fun whole => ⟨fun some => ?_, fun j known => .joined known ?_⟩⟩
  · simpa [Step.sql] using introduced table (by simp [Step.sql])
  · obtain ⟨l, found⟩ := Option.isSome_iff_exists.mp some
    obtain ⟨locale, inLocale⟩ : ∃ locale, p.locale = Option.some locale := by
      unfold localization? at found
      split at found
      case isTrue wanted => exact Option.isSome_iff_exists.mp wanted
      case isFalse => exact absurd found (by simp)
    have joined : [.text " LEFT JOIN ", .name l.satellite, .text " AS ", .name p.satelliteAlias, .text " ON "] <:+:
        p.draft c part := by
      refine List.IsInfix.trans ?_ (join_within columns inLocale found whole resolved)
      exact ⟨[], _, rfl⟩
    exact .satellite found (by simpa [Step.sql] using introduced joined (by simp [Step.sql]))
  · have joined : [.text " ", .text j.kind.sql, .text " ", .name j.table, .text " ON "] <:+: p.draft c part := by
      have opening : [.text " ", .text j.kind.sql, .text " ", .name j.table, .text " ON "] <:+:
          joinDraft p.table j := ⟨[], _, by simp only [joinDraft, List.append_assoc]; rfl⟩
      have listed : joinDraft p.table j <:+: p.joins.flatMap (joinDraft p.table) := by
        rw [List.flatMap_def]
        exact List.infix_of_mem_flatten (List.mem_map_of_mem known)
      have first : p.joins.flatMap (joinDraft p.table) <:+: p.clauses c part := by
        simp only [clauses, List.append_assoc]
        exact (List.prefix_append _ _).isInfix
      exact ((opening.trans listed).trans first).trans (clauses_within whole resolved)
    have kind : '?' ∉ j.kind.sql.toList := by cases j.kind <;> decide
    simpa [Step.sql] using introduced joined (by simp [Step.sql, kind])

/-- In the draft of a part all references outside of subqueries are to tables that its text reads. -/
theorem draft_qualifies (free : p.raws = []) (unqualified : p.Unqualified) (known : part.relations ⊆ p.relations)
    (complete : (p.draft c part).failure? = none)
    (numbers : Numbered ((p.draft c part).text c.dialect) text) :
    Qualifies c.dialect (p.Reaches c text) (p.Subselect c) ((p.draft c part).text c.dialect) := by
  obtain ⟨columns, resolved, items, -, rest⟩ := (p.draft_complete_iff c part).mp complete
  obtain ⟨base, more⟩ := reaches_of_draft complete numbers
  have asked : ∀ item ∈ p.askedItems c part columns, item.failure? = none :=
    fun item found => items item (p.mem_selectItems_of_asked c part columns found)
  have written := (draft_rawless free known).onlyPoints (d := c.dialect) complete
  refine (p.draft_cites c part columns resolved).qualifies written complete ?_
  refine List.forall_mem_append.mpr ⟨?_, ?_⟩
  · exact selectReferences_inScope base resolved asked known fun whole => (more whole).1
  · split
    · exact List.forall_mem_singleton.mpr base
    · rename_i whole
      have whole : part.byKeys = false := by simpa using whole
      obtain ⟨satellite, joined⟩ := more whole
      rw [if_neg (by simp [whole]), failure?_append] at rest
      exact List.forall_mem_append.mpr ⟨satelliteReferences_inScope base satellite,
        clauseReferences_inScope unqualified base satellite rest.2 joined⟩

end Statements

section Narrowed

/-- Whether a plan asks for no more than another one, of the same rows. -/
structure Narrows (q p : Plan) : Prop where
  entity : q.entity = p.entity
  locale : q.locale = p.locale
  joins : q.joins = p.joins
  search : q.search = p.search
  relations : q.relations ⊆ p.relations
  counts : q.counts ⊆ p.counts
  aggregates : q.aggregates ⊆ p.aggregates
  raws : q.raws ⊆ p.raws
  mentions : q.mentions ⊆ p.mentions

namespace Narrows

variable {q p : Plan} {c : Compiler} {text : List Char} (narrows : q.Narrows p)
include narrows

theorem unqualified (h : p.Unqualified) : q.Unqualified where
  mentions x named := h.mentions x (narrows.mentions named)
  searched s searched := by
    rw [narrows.entity]
    exact h.searched s (narrows.search ▸ searched)

theorem rawless (free : p.raws = []) : q.raws = [] :=
  List.eq_nil_iff_forall_not_mem.mpr fun sql found => by simpa [free] using narrows.raws found

theorem table : q.table = p.table := congrArg Entity.table narrows.entity

theorem context : q.context c = p.context c := by
  unfold Plan.context
  rw [narrows.locale, narrows.entity]

theorem localization? : q.localization? c = p.localization? c := by
  unfold Plan.localization?
  rw [narrows.locale, narrows.entity]

theorem subselect (h : q.Subselect c text) : p.Subselect c text := by
  cases h with
  | relation known compiled =>
    rw [narrows.context, narrows.entity, narrows.table] at compiled
    exact .relation (narrows.relations known) compiled
  | count known compiled =>
    rw [narrows.context, narrows.entity, narrows.table] at compiled
    exact .count (narrows.counts known) compiled
  | aggregate known compiled =>
    rw [narrows.context, narrows.entity, narrows.table] at compiled
    exact .aggregate (narrows.aggregates known) compiled
  | search searched known compiled =>
    rw [narrows.context, narrows.entity, narrows.table] at compiled
    rw [narrows.search] at searched
    rw [narrows.entity] at known
    exact .search searched known compiled

theorem reaches {name : String} (h : q.Reaches c text name) : p.Reaches c text name := by
  have satellite : q.satelliteAlias = p.satelliteAlias := congrArg (· ++ "_trans") narrows.table
  cases h with
  | base written =>
    rw [narrows.table] at written ⊢
    exact .base written
  | satellite found written =>
    rw [narrows.localization?] at found
    rw [satellite] at written ⊢
    exact .satellite found written
  | joined known written =>
    exact .joined (narrows.joins ▸ known) written

theorem refersToRead (h : q.RefersToRead c text) : p.RefersToRead c text := by
  apply Qualifies.mono h
  · exact fun name reached => narrows.reaches reached
  · rintro piece ⟨fragment, asked, numbers⟩
    exact ⟨fragment, narrows.subselect asked, numbers⟩

end Narrows

theorem counted_narrows (p : Plan) : p.counted.Narrows p := by
  have raws := p.raws_counted
  unfold counted at raws ⊢
  dsimp only at raws ⊢
  split at raws
  case isTrue keys =>
    rw [if_pos keys]
    refine ⟨rfl, rfl, rfl, rfl, ?_, ?_, ?_, raws, ?_⟩
    · exact List.nil_subset _
    · exact List.nil_subset _
    · exact List.nil_subset _
    · intro x named
      simp only [mentions, List.mem_append, List.map_nil, List.flatMap_nil, List.not_mem_nil, or_false] at named ⊢
      exact .inl (.inl (.inl (by tauto)))
  case isFalse groups =>
    rw [if_neg groups]
    refine ⟨rfl, rfl, rfl, rfl, List.nil_subset _, List.Subset.refl _, List.Subset.refl _, raws, ?_⟩
    intro x named
    simp only [mentions, List.mem_append, List.map_nil, List.flatMap_nil, List.not_mem_nil, or_false] at named ⊢
    tauto

theorem probed_narrows (p : Plan) : p.probed.Narrows p := by
  refine ⟨rfl, rfl, rfl, rfl, List.nil_subset _, List.nil_subset _, List.nil_subset _, p.raws_probed, ?_⟩
  intro x named
  simp only [mentions, probed, List.mem_append, List.map_nil, List.flatMap_nil, List.not_mem_nil, or_false] at named ⊢
  tauto

end Narrowed

variable (p : Plan) (c : Compiler)

/-- The statements that are sent for a plan, the follow-ups with any keys. -/
inductive Sends : Statement → Prop where
  | unsplit {s : Statement} (written : p.unsplit c = .ok s) : Sends s
  | base {plan : Split} (written : p.split c = .ok plan) : Sends plan.base
  | followUp {plan : Split} {f : FollowUp} (written : p.split c = .ok plan) (listed : f ∈ plan.followUps)
      (keys : List DbValue) : Sends (f.bind c.dialect keys)
  | baseOnly {forced : List String} {s : Statement} (written : p.baseOnly c forced = .ok s) : Sends s
  | counted {s : Statement} (written : p.count c = .ok s) : Sends s
  | existence {s : Statement} (written : p.existence c = .ok s) : Sends s

/-- The statements that load the relations, counts and aggregates of a plan by keys, in any context. -/
inductive Loads : Statement → Prop where
  | relation {ctx : Context} {r : RelationRequest} {columns : ColumnSelection} {keys : List DbValue} {s : Statement}
      (known : r ∈ p.relations)
      (written : Statement.ofDraft c.dialect (Keyed.relation ctx p.entity r columns keys) = .ok s) : Loads s
  | count {ctx : Context} {n : CountRequest} {keys : List DbValue} {s : Statement} (known : n ∈ p.counts)
      (written : Statement.ofDraft c.dialect (Keyed.count ctx p.entity n keys) = .ok s) : Loads s
  | aggregate {ctx : Context} {a : AggregateRequest} {keys : List DbValue} {s : Statement}
      (known : a ∈ p.aggregates)
      (written : Statement.ofDraft c.dialect (Keyed.aggregate ctx p.entity a keys) = .ok s) : Loads s

/-- That all references of a plan's subqueries and statements are to tables in scope. -/
structure InReach : Prop where
  subselects : ∀ text, p.Subselect c text → Correlated c.dialect p.table text
  loads : ∀ s, p.Loads c s → SelfContained c.dialect s.sql.toList
  sends : ∀ s, p.Sends c s → p.RefersToRead c s.sql.toList

section Sent

variable {p c} (free : p.raws = []) (unqualified : p.Unqualified)
include free unqualified

/-- The filters of what is requested have no raw texts and no columns with points either. -/
theorem requests_unqualified :
    (∀ r ∈ p.relations, rawsOf r.filter = [] ∧ ∀ x ∈ filterColumns r.filter, Undotted x) ∧
      (∀ n ∈ p.counts, rawsOf n.filter = [] ∧ ∀ x ∈ filterColumns n.filter, Undotted x) ∧
      ∀ a ∈ p.aggregates, rawsOf a.filter = [] ∧ ∀ x ∈ filterColumns a.filter, Undotted x := by
  have columns := unqualified.mentions
  simp only [mentions, List.forall_mem_append, List.forall_mem_flatMap] at columns
  obtain ⟨⟨⟨-, relations⟩, counts⟩, aggregates⟩ := columns
  simp only [raws, List.append_eq_nil_iff, List.flatMap_eq_nil_iff] at free
  obtain ⟨⟨⟨-, rawless⟩, rawlessCounts⟩, rawlessAggregates⟩ := free
  exact ⟨fun r known => ⟨rawless r known, relations r known⟩,
    fun n known => ⟨rawlessCounts n known, counts n known⟩,
    fun a known => ⟨rawlessAggregates a known, aggregates a known⟩⟩

theorem subselect_correlated {text : List Char} (asked : p.Subselect c text) :
    Correlated c.dialect p.table text := by
  obtain ⟨relations, counts, aggregates⟩ := requests_unqualified free unqualified
  cases asked with
  | relation known compiled =>
    obtain ⟨complete, rfl⟩ := (Draft.compile_eq_ok_iff _ _ _).mp compiled
    obtain ⟨rawless, undotted⟩ := relations _ known
    exact Subquery.relation_correlated rawless undotted complete
  | count known compiled =>
    obtain ⟨complete, rfl⟩ := (Draft.compile_eq_ok_iff _ _ _).mp compiled
    obtain ⟨rawless, undotted⟩ := counts _ known
    exact Subquery.count_correlated rawless undotted complete
  | aggregate known compiled =>
    obtain ⟨complete, rfl⟩ := (Draft.compile_eq_ok_iff _ _ _).mp compiled
    obtain ⟨rawless, undotted⟩ := aggregates _ known
    exact Subquery.aggregate_correlated rawless undotted complete
  | search searched known compiled =>
    obtain ⟨complete, rfl⟩ := (Draft.compile_eq_ok_iff _ _ _).mp compiled
    exact Subquery.search_correlated complete

theorem loads_selfContained {s : Statement} (loaded : p.Loads c s) : SelfContained c.dialect s.sql.toList := by
  obtain ⟨relations, counts, aggregates⟩ := requests_unqualified free unqualified
  cases loaded with
  | relation known written =>
    obtain ⟨rawless, undotted⟩ := relations _ known
    exact Keyed.relation_selfContained rawless undotted written
  | count known written =>
    obtain ⟨rawless, undotted⟩ := counts _ known
    exact Keyed.count_selfContained rawless undotted written
  | aggregate known written =>
    obtain ⟨rawless, undotted⟩ := aggregates _ known
    exact Keyed.aggregate_selfContained rawless undotted written

theorem draft_refers {part : Part} {s : Statement} (known : part.relations ⊆ p.relations)
    (written : Statement.ofDraft c.dialect (p.draft c part) = .ok s) : p.RefersToRead c s.sql.toList := by
  have complete := ((ofDraft_eq_ok_iff _ _ _).mp written).1
  have numbers := Numbered.of_ofDraft written
  exact (draft_qualifies free unqualified known complete numbers).numbered numbers

/-- The keys of a follow-up are bound without a reference. -/
theorem followUp_refers {batch : List RelationRequest} {f : FollowUp} (known : batch ⊆ p.relations)
    (written : p.followUp c batch = .ok f) (keys : List DbValue) :
    p.RefersToRead c (f.bind c.dialect keys).sql.toList := by
  obtain ⟨complete, same⟩ := followUp_eq_ok_iff.mp written
  have pointless : '.' ∉ (bindList keys).text c.dialect ++ [')'] := by
    simp [point_notMem_bindList]
  have numbers := f.numbered_bind c.dialect keys
  have template : f.template.sql.toList = (p.draft c (p.laterPart batch)).text c.dialect := by
    rw [same]
    rfl
  rw [template] at numbers
  obtain ⟨front, back, bound, first, -⟩ := numbers.append_inv
  have draft := draft_qualifies free unqualified known complete first
  have reached : ∀ name, p.Reaches c front name → p.Reaches c (f.bind c.dialect keys).sql.toList name := by
    intro name reached
    rw [bound]
    exact reached.mono (List.prefix_append _ _).isInfix
  exact ((draft.mono reached fun _ asked => asked).append (.of_notMem pointless)).numbered numbers

omit free unqualified in
/-- What a statement is counted by has no references of its own. -/
theorem counted_refers {sql : String} (inner : p.RefersToRead c sql.toList) :
    p.RefersToRead c ("SELECT COUNT(*) AS " ++ c.dialect.quote "aggregate" ++ " FROM (" ++ sql ++ ") AS " ++
      c.dialect.quote "aggregate_table").toList := by
  have word : '.' ∉ (c.dialect.quote "aggregate").toList := notMem_quote (by decide) (.inl rfl)
  have table : '.' ∉ (c.dialect.quote "aggregate_table").toList := notMem_quote (by decide) (.inl rfl)
  have opening : '.' ∉ ("SELECT COUNT(*) AS " ++ c.dialect.quote "aggregate" ++ " FROM (").toList := by
    simp [word]
  have closing : '.' ∉ (") AS " ++ c.dialect.quote "aggregate_table").toList := by
    simp [table]
  have shape : ("SELECT COUNT(*) AS " ++ c.dialect.quote "aggregate" ++ " FROM (" ++ sql ++ ") AS " ++
      c.dialect.quote "aggregate_table").toList =
      ("SELECT COUNT(*) AS " ++ c.dialect.quote "aggregate" ++ " FROM (").toList ++ sql.toList ++
        (") AS " ++ c.dialect.quote "aggregate_table").toList := by
    simp
  rw [shape]
  refine Qualifies.append (.append (.of_notMem opening) (inner.mono (fun name reached => ?_) ?_)) (.of_notMem closing)
  · exact reached.mono (List.infix_append _ _ _)
  · exact fun piece asked => asked

theorem sends_refers {s : Statement} (sent : p.Sends c s) : p.RefersToRead c s.sql.toList := by
  cases sent with
  | unsplit written => exact draft_refers free unqualified (List.Subset.refl _) written
  | baseOnly written => exact draft_refers free unqualified (List.nil_subset _) written
  | @base plan written =>
    obtain ⟨first, -⟩ := split_eq_ok_iff.mp written
    exact draft_refers free unqualified (p.firstBatch_subset c.config) first
  | @followUp plan f written listed keys =>
    obtain ⟨-, later, -⟩ := split_eq_ok_iff.mp written
    obtain ⟨batch, known, done⟩ := exists_of_forall₂ later.flip listed
    exact followUp_refers free unqualified (p.laterBatch_subset known) done keys
  | existence written =>
    have narrows := p.probed_narrows
    have probed := draft_refers (narrows.rawless free) (narrows.unqualified unqualified) (List.nil_subset _) written
    exact narrows.refersToRead probed
  | counted written =>
    obtain ⟨inner, done, rfl⟩ := map_eq_ok_iff.mp written
    have narrows := p.counted_narrows
    have counted := draft_refers (narrows.rawless free) (narrows.unqualified unqualified) (List.nil_subset _) done
    exact counted_refers (narrows.refersToRead counted)

/-- If a plan without raw texts leaves its columns unqualified, all references of its subqueries and statements
are to tables in scope. -/
theorem inReach_of_unqualified : p.InReach c where
  subselects _ asked := subselect_correlated free unqualified asked
  loads _ loaded := loads_selfContained free unqualified loaded
  sends _ sent := sends_refers free unqualified sent

end Sent
end Plan

namespace Translated

/-- The first three tags by label. -/
def firstTags : RelationRequest :=
  { name := "tags", kind := .collection
    filter := some { news with order := [⟨"label", .ascending⟩], limit := some 3 } }

/-- Articles with their authors joined. -/
def signed : Plan :=
  { tagged with
    relations := [firstTags]
    joins := [⟨.inner, "authors", "author_id", .equal, "id"⟩] }

end Translated

open Translated in
theorem inReach_articles : signed.raws = [] ∧ signed.Unqualified ∧
    (∃ s, signed.unsplit compiler = .ok s ∧ signed.RefersToRead compiler s.sql.toList) ∧
    ∃ f, (Subquery.relation (signed.context compiler) signed.entity signed.table firstTags).compile .sqlite = .ok f ∧
      Correlated .sqlite "articles" f.sql.toList := by
  have free : signed.raws = [] := by decide
  have unqualified : signed.Unqualified := by
    refine ⟨by decide, ?_⟩
    rintro _ ⟨⟩
    refine List.forall_mem_cons.mpr ⟨.inl (by decide), List.forall_mem_singleton.mpr (.inr ?_)⟩
    exact ⟨"tags".toList, "label".toList, by decide, by decide⟩
  have reach := Plan.inReach_of_unqualified (c := compiler) free unqualified
  have complete : (signed.unsplitDraft compiler).failure? = none := by decide
  have tags : (Subquery.relation (signed.context compiler) signed.entity signed.table firstTags).failure? = none := by
    decide
  have written := (ofDraft_eq_ok_iff compiler.dialect (signed.unsplitDraft compiler) _).mpr ⟨complete, rfl⟩
  have compiled := (Draft.compile_eq_ok_iff compiler.dialect _ _).mpr ⟨tags, rfl⟩
  exact ⟨free, unqualified, ⟨_, written, reach.sends _ (.unsplit written)⟩,
    _, compiled, reach.subselects _ (.relation List.mem_cons_self compiled)⟩

end EagerLoad
