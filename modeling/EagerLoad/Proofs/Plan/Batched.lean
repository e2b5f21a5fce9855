import EagerLoad.Proofs.Plan.BaseOnly
import EagerLoad.Proofs.Relation.Openings
import EagerLoad.Proofs.Run.Split

/-! # How relations are divided among statements

A plan within its limit is one statement that selects all its relations, counts and aggregates. Beyond the
limit the relations are divided, in their order, into as few batches as the limit allows. The base statement
selects the first batch with the counts and aggregates, and a follow-up selects the primary key and its own
batch. Each relation is written as the layout says that it is decoded. -/
namespace EagerLoad

open Sql Sql.Draft

section Chunks

variable {size : Nat} (some : 0 < size)
include some

/-- There are as many pieces as the size goes into the length, rounded up. -/
theorem length_chunksOf (items : List α) :
    (chunksOf size items).length = (items.length + size - 1) / size := by
  fun_induction chunksOf size items with
  | case1 => exact (Nat.div_eq_of_lt (by simp; omega)).symm
  | case2 x rest ih =>
    rw [List.length_cons, ih, List.length_drop, List.length_cons]
    by_cases last : rest.length < size
    · have none : rest.length - (size - 1) + size - 1 < size := by omega
      have one : rest.length + 1 + size - 1 = rest.length + size := by omega
      rw [Nat.div_eq_of_lt none, one, Nat.add_div_right _ some, Nat.div_eq_of_lt last]
    · have more : rest.length + 1 + size - 1 = rest.length - (size - 1) + size - 1 + size := by omega
      rw [more, Nat.add_div_right _ some]

theorem length_of_mem_chunksOf {items piece : List α} (found : piece ∈ chunksOf size items) :
    1 ≤ piece.length ∧ piece.length ≤ size := by
  fun_induction chunksOf size items with
  | case1 => exact absurd found List.not_mem_nil
  | case2 x rest ih =>
    rcases List.mem_cons.mp found with rfl | later
    · have taken := List.length_take_le (size - 1) rest
      rw [List.length_cons]
      omega
    · exact ih later

end Chunks

/-- A selection of items from a table, and all that comes after it. -/
def Fragment.select (d : Dialect) (table : String) (items : List Fragment) (rest : Fragment) :
    Fragment :=
  ⟨"SELECT " ++ ", ".intercalate (items.map Fragment.sql) ++ " FROM " ++ d.quote table ++ rest.sql,
    items.flatMap Fragment.bindings ++ rest.bindings⟩

theorem fragment_select (d : Dialect) (table : String) (items : List Draft) (rest : Draft) :
    Draft.fragment d (.text "SELECT " :: separated ", " items ++ [.text " FROM ", .name table] ++ rest) =
      .select d table (items.map (Draft.fragment d)) (rest.fragment d) := by
  have sql := sql_separated d ", " items
  have values := values_separated ", " items
  rw [Fragment.select, List.map_map, List.flatMap_map, Draft.fragment, Fragment.mk.injEq]
  constructor
  · apply String.toList_injective
    change Draft.text d _ = _
    have joined : (", ".intercalate (items.map (Fragment.sql ∘ Draft.fragment d))).toList =
        Draft.text d (separated ", " items) := congrArg String.toList sql.symm
    simp only [text_append, text_cons, text_nil, String.toList_append, joined, Step.sql]
    simp [Draft.text]
  · change Draft.values _ = _
    simp only [values_append, values_cons, values_nil, values, bindings_fragment]
    simp [Step.bindings]

namespace Plan

variable {p : Plan} {c : Compiler}

/-- Whether a fragment selects exactly some items from the base table, in their order. -/
def Lists (p : Plan) (c : Compiler) (items : List Draft) (f : Fragment) : Prop :=
  ∃ written rest, List.Forall₂ (fun item g => item.compile c.dialect = .ok g) items written ∧
    f = .select c.dialect p.table written rest

theorem draft_lists {part : Part} (complete : (p.draft c part).failure? = none) :
    ∃ columns, p.partColumns c part = .ok columns ∧
      p.Lists c (p.selectItems c part columns) ((p.draft c part).fragment c.dialect) := by
  obtain ⟨columns, resolved, items, -, -⟩ := (p.draft_complete_iff c part).mp complete
  refine ⟨columns, resolved, (p.selectItems c part columns).map (Draft.fragment c.dialect),
    (if part.byKeys then p.openKeys else p.satelliteJoin c ++ p.clauses c part).fragment c.dialect, ?_, ?_⟩
  · rw [List.forall₂_map_right_iff, List.forall₂_same]
    intro item found
    exact (Draft.compile_eq_ok_iff _ _ _).mpr ⟨items item found, rfl⟩
  · rw [draft, resolved, andThen, ← fragment_select]
    split <;> rfl

/-- What it means that a split plan divides its relations into batches, with the columns of its base
statement. -/
structure Batched (p : Plan) (c : Compiler) (s : Split) (first : List RelationRequest)
    (later : List (List RelationRequest)) (own : Columns) : Prop where
  relations : first ++ later.flatten = p.relations
  sizes : ∀ batch ∈ first :: later, 1 ≤ batch.length ∧ batch.length ≤ p.relationLimit c.config
  followUps_length : s.followUps.length =
    (p.relations.length + p.relationLimit c.config - 1) / p.relationLimit c.config - 1
  labels : first.map RelationRequest.label ++ s.followUps.flatMap FollowUp.relations =
    p.relations.map RelationRequest.label
  key : p.entity.primaryKey ∈ own.names
  base : ∃ f, s.base = .ofFragment c.dialect f ∧
    p.Lists c (own.items p.table p.satelliteAlias ++ p.relationItems c first ++ p.scalarItems c) f
  followUps : List.Forall₂ (fun batch f => f.relations = batch.map RelationRequest.label ∧
    p.Lists c (qualified p.table p.entity.primaryKey :: p.relationItems c batch) f.template)
    later s.followUps

theorem askedItems_firstPart (batch : List RelationRequest) (columns : Columns) :
    p.askedItems c (p.firstPart batch) columns =
      columns.items p.table p.satelliteAlias ++ p.relationItems c batch ++ p.scalarItems c := rfl

theorem askedItems_laterPart (batch : List RelationRequest) :
    p.askedItems c (p.laterPart batch) ⟨[p.entity.primaryKey], []⟩ =
      qualified p.table p.entity.primaryKey :: p.relationItems c batch := List.append_nil _

theorem items_ne_nil {columns : Columns} {x : String} (known : x ∈ columns.names)
    (mainAlias satelliteAlias : String) : columns.items mainAlias satelliteAlias ≠ [] := by
  intro none
  obtain ⟨main, localized⟩ := List.append_eq_nil_iff.mp none
  rw [Columns.names, List.map_eq_nil_iff.mp main, List.map_eq_nil_iff.mp localized] at known
  exact List.not_mem_nil known

theorem selectItems_of_ne_nil {part : Part} {columns : Columns}
    (some : p.askedItems c part columns ≠ []) :
    p.selectItems c part columns = p.askedItems c part columns := by
  rw [selectItems_eq, if_neg (by rwa [List.isEmpty_iff])]

theorem followUp_lists {batch : List RelationRequest} {f : FollowUp}
    (written : p.followUp c batch = .ok f) :
    f.relations = batch.map RelationRequest.label ∧
      p.Lists c (qualified p.table p.entity.primaryKey :: p.relationItems c batch) f.template := by
  obtain ⟨complete, rfl⟩ := followUp_eq_ok_iff.mp written
  obtain ⟨columns, resolved, lists⟩ := draft_lists complete
  obtain rfl : ⟨[p.entity.primaryKey], []⟩ = columns := Except.ok.inj resolved
  rw [selectItems_of_ne_nil (askedItems_laterPart batch ▸ List.cons_ne_nil _ _),
    askedItems_laterPart] at lists
  exact ⟨rfl, lists⟩

theorem batches_eq_cons (more : p.relations ≠ []) :
    p.batches c.config = p.firstBatch c.config :: p.laterBatches c.config := by
  unfold firstBatch laterBatches batches
  cases relations : p.relations with
  | nil => exact absurd relations more
  | cons r rest => rw [chunksOf, List.headD_cons, List.drop_one, List.tail_cons]

theorem split_batched {s : Split} (split : p.split c = .ok s) (limited : p.isSplit c.config = true) :
    ∃ own, Columns.resolve p.entity p.columns (p.localization? c) = .ok own ∧
      p.Batched c s (p.firstBatch c.config) (p.laterBatches c.config)
        (force own [p.entity.primaryKey]) := by
  obtain ⟨base, followUps, -⟩ := split_eq_ok_iff.mp split
  obtain ⟨complete, written⟩ := (ofDraft_eq_ok_iff _ _ _).mp base
  obtain ⟨columns, resolved, lists⟩ := draft_lists complete
  obtain ⟨own, selects, rfl⟩ := map_eq_ok_iff.mp resolved
  have key : p.entity.primaryKey ∈ (force own [p.entity.primaryKey]).names :=
    (mem_names_force _ _ _).mpr (.inr (List.mem_singleton_self _))
  have asked : p.askedItems c (p.firstPart (p.firstBatch c.config)) (force own [p.entity.primaryKey]) ≠ [] := by
    rw [askedItems_firstPart, List.append_assoc]
    exact List.append_ne_nil_of_left_ne_nil (items_ne_nil key _ _) _
  have lists : p.Lists c (p.selectItems c (p.firstPart (p.firstBatch c.config))
    (force own [p.entity.primaryKey])) _ := lists
  rw [selectItems_of_ne_nil asked, askedItems_firstPart] at lists
  simp only [isSplit, Bool.and_eq_true, decide_eq_true_eq] at limited
  obtain ⟨some, more⟩ := limited
  have pieces : p.batches c.config = p.firstBatch c.config :: p.laterBatches c.config :=
    batches_eq_cons (List.ne_nil_of_length_pos (Nat.zero_lt_of_lt more))
  have number : (p.laterBatches c.config).length + 1 =
      (p.relations.length + p.relationLimit c.config - 1) / p.relationLimit c.config := by
    rw [← length_chunksOf some p.relations, ← List.length_cons, ← pieces, batches]
  refine ⟨own, selects,
    { relations := p.batches_flatten c.config
      sizes := fun batch found => length_of_mem_chunksOf some (pieces ▸ found)
      followUps_length := ?_
      labels := labels_of_split split
      key
      base := ⟨_, written.symm, lists⟩
      followUps := followUps.imp fun batch f => followUp_lists }⟩
  rw [← followUps.length_eq]
  omega

/-- A plan that is not split is one statement, which selects the primary key if it selects nothing. -/
theorem unsplit_lists {statement : Statement} (written : p.unsplit c = .ok statement) :
    ∃ own columns f, Columns.resolve p.entity p.columns (p.localization? c) = .ok own ∧
      statement = .ofFragment c.dialect f ∧
      (columns = own.items p.table p.satelliteAlias ∨
        columns = [qualified p.table p.entity.primaryKey] ∧ p.subqueries = 0) ∧
      p.Lists c (columns ++ p.relationItems c p.relations ++ p.scalarItems c) f := by
  obtain ⟨complete, rfl⟩ := (ofDraft_eq_ok_iff _ _ _).mp written
  obtain ⟨columns, resolved, lists⟩ := draft_lists complete
  obtain ⟨own, selects, rfl⟩ := map_eq_ok_iff.mp resolved
  have lists : p.Lists c (p.selectItems c p.wholePart own) _ := lists
  have asked : p.askedItems c p.wholePart own = own.items p.table p.satelliteAlias ++
    p.relationItems c p.relations ++ p.scalarItems c := rfl
  by_cases none : p.askedItems c p.wholePart own = []
  · rw [selectItems_eq, none] at lists
    rw [asked, List.append_eq_nil_iff, List.append_eq_nil_iff] at none
    obtain ⟨⟨-, relations⟩, scalars⟩ := none
    obtain ⟨counts, aggregates⟩ := List.append_eq_nil_iff.mp scalars
    refine ⟨own, _, _, selects, rfl, .inr ⟨rfl, ?_⟩, ?_⟩
    · rw [subqueries, List.map_eq_nil_iff.mp relations, List.map_eq_nil_iff.mp counts,
        List.map_eq_nil_iff.mp aggregates]
      rfl
    · rw [relations, scalars]
      exact lists
  · rw [selectItems_of_ne_nil none, asked] at lists
    exact ⟨own, _, _, selects, rfl, .inl rfl, lists⟩

theorem relation_complete_of_compile {compiled : CompiledPlan} (compiles : p.compile c = .ok compiled)
    {r : RelationRequest} (known : r ∈ p.relations) :
    (Subquery.relation (p.context c) p.entity p.table r).failure? = none := by
  obtain ⟨-, -, query⟩ := compile_eq_ok_iff.mp compiles
  split at query
  · obtain ⟨s, written, -⟩ := query
    exact relation_complete_of_split written known
  · obtain ⟨statement, written, -⟩ := query
    exact relation_complete_of_unsplit ((ofDraft_eq_ok_iff _ _ _).mp written).1 known

/-- A relation is decoded in the shape that its item is written in. -/
def DecodedAsWritten (p : Plan) (c : Compiler) (r : RelationRequest) (slot : Slot) : Prop :=
  slot.label = r.label ∧
    ∃ g, (Subquery.relation (p.context c) p.entity p.table r).compile c.dialect = .ok g ∧
      ∀ shape, slot.shape = shape ↔ Subquery.opening c.dialect shape <+: g.sql.toList

theorem layout_decodes {compiled : CompiledPlan} (compiles : p.compile c = .ok compiled) :
    List.Forall₂ (p.DecodedAsWritten c) p.relations compiled.layout := by
  have slots := mapM_eq_ok_iff.mp (compile_eq_ok_iff.mp compiles).1
  have complete := fun r known => relation_complete_of_compile compiles (r := r) known
  refine (List.forall₂_and_left _ _ |>.mpr ⟨complete, slots⟩).imp ?_
  rintro r slot ⟨complete, laid⟩
  obtain ⟨shape, shaped, rfl⟩ := map_eq_ok_iff.mp laid
  obtain ⟨written, agrees, rest, opens⟩ := Subquery.relation_opens_as (d := c.dialect) complete
  obtain rfl := Except.ok.inj (shaped.symm.trans agrees)
  refine ⟨rfl, _, (Draft.compile_eq_ok_iff _ _ _).mpr ⟨complete, rfl⟩, fun other => ?_⟩
  exact (Subquery.opening_prefix_iff opens).symm

/-- A plan beyond its limit is split into batches of its relations, and any other one is a single
statement with all of them. The layout has a slot for every relation, in the shape that it is written in. -/
theorem compile_divides {compiled : CompiledPlan} (compiles : p.compile c = .ok compiled) :
    List.Forall₂ (p.DecodedAsWritten c) p.relations compiled.layout ∧
    if 0 < p.relationLimit c.config ∧ p.relationLimit c.config < p.relations.length then
      ∃ s first later own, compiled.query = .split s ∧
        Columns.resolve p.entity p.columns (p.localization? c) = .ok own ∧
        p.Batched c s first later (force own [p.entity.primaryKey])
    else
      ∃ own columns f, compiled.query = .single (.ofFragment c.dialect f) ∧
        Columns.resolve p.entity p.columns (p.localization? c) = .ok own ∧
        (columns = own.items p.table p.satelliteAlias ∨
          columns = [qualified p.table p.entity.primaryKey] ∧ p.subqueries = 0) ∧
        p.Lists c (columns ++ p.relationItems c p.relations ++ p.scalarItems c) f := by
  refine ⟨layout_decodes compiles, ?_⟩
  obtain ⟨-, -, query⟩ := compile_eq_ok_iff.mp compiles
  have limit : p.isSplit c.config = true ↔
      0 < p.relationLimit c.config ∧ p.relationLimit c.config < p.relations.length := by
    simp [isSplit]
  by_cases beyond : p.isSplit c.config = true
  · rw [if_pos beyond] at query
    obtain ⟨s, written, same⟩ := query
    obtain ⟨own, selects, batched⟩ := split_batched written beyond
    rw [if_pos (limit.mp beyond)]
    exact ⟨s, _, _, own, same, selects, batched⟩
  · rw [if_neg beyond] at query
    obtain ⟨statement, written, same⟩ := query
    obtain ⟨own, columns, f, selects, rfl, carried, lists⟩ := unsplit_lists written
    rw [if_neg (beyond ∘ limit.mpr)]
    exact ⟨own, columns, f, same, selects, carried, lists⟩

end Plan

open Bookshelf in
theorem compile_divides_shelf :
    authors.compile compiler = .ok ⟨.split split, [⟨"books", .many⟩, ⟨"awards", .many⟩], 2⟩ ∧
      (0 < authors.relationLimit compiler.config ∧
        authors.relationLimit compiler.config < authors.relations.length) ∧
      List.Forall₂ (authors.DecodedAsWritten compiler) authors.relations
        [⟨"books", .many⟩, ⟨"awards", .many⟩] ∧
      ∃ s first later own, CompiledQuery.split split = .split s ∧
        Columns.resolve authors.entity authors.columns (authors.localization? compiler) = .ok own ∧
        authors.Batched compiler s first later (Plan.force own ["id"]) := by
  have beyond : 0 < authors.relationLimit compiler.config ∧
      authors.relationLimit compiler.config < authors.relations.length := by decide
  have divides := Plan.compile_divides compiled
  rw [if_pos beyond] at divides
  exact ⟨compiled, beyond, divides⟩

end EagerLoad
