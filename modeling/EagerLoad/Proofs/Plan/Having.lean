import EagerLoad.Proofs.Filter.Cited
import EagerLoad.Proofs.Plan.Batched

/-! # The subqueries that HAVING names

HAVING tests groups by output columns. Order terms that name a subquery are left out unless it is selected,
but HAVING is written as it is, into statements that select all subqueries of the plan, some of them or none. -/
namespace EagerLoad

open Sql Sql.Draft

/-- Whether a text is a subquery in parentheses with a label. -/
def Labelled (d : Dialect) (label : String) (text : List Char) : Prop :=
  "(SELECT ".toList <+: text ∧ ") AS ".toList ++ (d.quote label).toList <:+ text

section Labels

variable {d : Dialect}

/-- A quoted name read backwards from its closing mark. -/
theorem quote_reverse (d : Dialect) (name : String) :
    (d.quote name).toList.reverse = d.quoteMark ::
      ((name.toList.reverse.flatMap fun c => if c = d.quoteMark then [d.quoteMark, c] else [c]) ++
        [d.quoteMark]) := by
  have same : (List.reverse ∘ fun c => if c = d.quoteMark then [d.quoteMark, c] else [c]) =
      fun c => if c = d.quoteMark then [d.quoteMark, c] else [c] := by
    funext c
    by_cases mark : c = d.quoteMark <;> simp [mark]
  simp [Dialect.quote, List.reverse_flatMap, same]

/-- Marks are doubled inside quotes, so the mark that ends a name which has none is where a blank follows. -/
private theorem contents_unique {mark : Char} (apart : ' ' ≠ mark) {xs ys x y : List Char}
    (absent : mark ∉ ys)
    (same : (xs.flatMap fun c => if c = mark then [mark, c] else [c]) ++ mark :: ' ' :: x =
      ys ++ mark :: ' ' :: y) : xs = ys := by
  induction xs generalizing ys with
  | nil =>
    cases ys with
    | nil => rfl
    | cons c rest =>
      obtain ⟨rfl, -⟩ := List.cons.inj same
      exact absurd List.mem_cons_self absent
  | cons c rest ih =>
    rw [List.flatMap_cons] at same
    by_cases marked : c = mark
    · rw [if_pos marked] at same
      cases ys with
      | nil =>
        obtain ⟨-, next⟩ := List.cons.inj same
        obtain ⟨blank, -⟩ := List.cons.inj next
        exact absurd (blank.symm.trans marked) apart
      | cons first others =>
        obtain ⟨rfl, -⟩ := List.cons.inj same
        exact absurd List.mem_cons_self absent
    · rw [if_neg marked] at same
      cases ys with
      | nil =>
        obtain ⟨rfl, -⟩ := List.cons.inj same
        exact absurd rfl marked
      | cons first others =>
        obtain ⟨rfl, later⟩ := List.cons.inj same
        rw [ih (fun found => absent (List.mem_cons_of_mem _ found)) later]

/-- A text has one label at most, if it has a valid one. -/
theorem Labelled.unique {x y : String} {text : List Char} (valid : Identifier.fault? y = none)
    (hx : Labelled d x text) (hy : Labelled d y text) : x = y := by
  obtain ⟨-, front, shape⟩ := hx
  obtain ⟨-, other, same⟩ := hy
  have apart : ' ' ≠ d.quoteMark := by cases d <;> simp [Dialect.quoteMark]
  have absent : d.quoteMark ∉ y.toList.reverse := by
    intro found
    have allowed := isAllowed_of_fault?_eq_none y valid _ (List.mem_reverse.mp found)
    have never : Identifier.isAllowed d.quoteMark = false := by cases d <;> rfl
    exact Bool.false_ne_true (never.symm.trans allowed)
  have backwards := congrArg List.reverse (shape.trans same.symm)
  simp only [List.reverse_append, quote_reverse, quote_of_valid d y valid] at backwards
  have reversed := contents_unique apart absent (by simpa using backwards)
  exact String.toList_injective (List.reverse_injective reversed)

end Labels

namespace Subquery

variable {ctx : Context} {base : Entity} {baseAlias : String}

theorem relation_ends {r : RelationRequest} (complete : (relation ctx base baseAlias r).failure? = none) :
    [.text ") AS ", .name r.label] <:+ relation ctx base baseAlias r := by
  unfold relation at complete ⊢
  obtain ⟨segments, cut, complete⟩ := failure?_andThen.mp complete
  obtain ⟨s, resolved, complete⟩ := Source.failure?_andThen.mp complete
  obtain ⟨columns, projection, rest⟩ := RelationRequest.failure?_withProjection.mp complete
  obtain ⟨shape, shaped, -⟩ := failure?_andThen.mp rest
  rw [cut, andThen, Source.andThen, resolved, andThen, RelationRequest.withProjection, projection,
    andThen, shaped, andThen]
  apply List.suffix_append_of_suffix
  apply List.suffix_append_of_suffix
  apply List.suffix_append

theorem count_ends {c : CountRequest} (complete : (count ctx base baseAlias c).failure? = none) :
    [.text ") AS ", .name c.label] <:+ count ctx base baseAlias c := by
  obtain ⟨s, resolved, -⟩ := count_parts complete
  rw [count, Source.andThen, resolved, andThen]
  apply List.suffix_append_of_suffix
  apply List.suffix_append

theorem aggregate_ends {a : AggregateRequest}
    (complete : (aggregate ctx base baseAlias a).failure? = none) :
    [.text ") AS ", .name a.label] <:+ aggregate ctx base baseAlias a := by
  obtain ⟨s, resolved, -⟩ := aggregate_parts complete
  have named : ¬Text.isBlankText a.column = true := by
    intro blank
    rw [aggregate, if_pos blank] at complete
    exact absurd complete (by simp [Step.failure?])
  rw [aggregate, if_neg named, Source.andThen, resolved, andThen]
  apply List.suffix_append_of_suffix
  apply List.suffix_append

private theorem labelled_of_ends {d : Dialect} {label : String} {draft : Draft}
    (complete : draft.failure? = none) (begins : "(SELECT ".toList <+: draft.text d)
    (ends : [.text ") AS ", .name label] <:+ draft) :
    Identifier.fault? label = none ∧ Labelled d label (draft.text d) := by
  obtain ⟨front, rfl⟩ := ends
  constructor
  · simp only [failure?_append, failure?_cons] at complete
    simpa [Step.failure?] using complete.2.2.1
  · refine ⟨begins, Draft.text d front, ?_⟩
    simp [Step.sql]

theorem relation_labelled {r : RelationRequest}
    (complete : (relation ctx base baseAlias r).failure? = none) (d : Dialect) :
    Identifier.fault? r.label = none ∧ Labelled d r.label ((relation ctx base baseAlias r).text d) := by
  obtain ⟨opening, known, rest, opens⟩ := relation_opens complete
  apply labelled_of_ends complete ?_ (relation_ends complete)
  rw [opens]
  obtain rfl | rfl := List.mem_pair.mp known <;> simp only [List.append_assoc, List.prefix_append]

private theorem scalarOpenings_select : ∀ opening ∈ scalarOpenings, "(SELECT ".toList <+: opening := by
  decide

theorem count_labelled {c : CountRequest} (complete : (count ctx base baseAlias c).failure? = none)
    (d : Dialect) :
    Identifier.fault? c.label = none ∧ Labelled d c.label ((count ctx base baseAlias c).text d) := by
  obtain ⟨opening, known, rest, opens⟩ := count_opens complete
  apply labelled_of_ends complete ?_ (count_ends complete)
  rw [opens]
  exact (scalarOpenings_select opening known).trans (List.prefix_append _ _)

theorem aggregate_labelled {a : AggregateRequest}
    (complete : (aggregate ctx base baseAlias a).failure? = none) (d : Dialect) :
    Identifier.fault? a.label = none ∧
      Labelled d a.label ((aggregate ctx base baseAlias a).text d) := by
  obtain ⟨opening, known, rest, opens⟩ := aggregate_opens complete
  apply labelled_of_ends complete ?_ (aggregate_ends complete)
  rw [opens]
  exact (scalarOpenings_select opening known).trans (List.prefix_append _ _)

end Subquery

namespace Plan

section Selection

variable {d : Dialect} (p : Plan) (c : Compiler) (part : Part)

/-- The select list of the statement of a part, as it is written. -/
def selection : List Fragment :=
  match p.partColumns c part with
  | .ok columns => (p.selectItems c part columns).map (Draft.fragment c.dialect)
  | .error _ => []

/-- The subqueries of a part with their labels. -/
def subqueryItems : List (String × Draft) :=
  part.relations.map (fun r => (r.label, Subquery.relation (p.context c) p.entity p.table r)) ++
    if part.scalars then
      p.counts.map (fun n => (n.label, Subquery.count (p.context c) p.entity p.table n)) ++
        p.aggregates.map fun a => (a.label, Subquery.aggregate (p.context c) p.entity p.table a)
    else []

theorem askedItems_eq (columns : Columns) : p.askedItems c part columns =
    columns.items p.table p.satelliteAlias ++ (p.subqueryItems c part).map Prod.snd := by
  rw [askedItems, subqueryItems, List.append_assoc]
  split <;> simp [Function.comp_def]

theorem emits_iff (x : String) :
    p.emits part x = true ↔ x ∈ (p.subqueryItems c part).map Prod.fst := by
  rw [emits, subqueryItems]
  split <;> rename_i carries <;> simp [carries]

theorem subqueryItems_labelled : ∀ entry ∈ p.subqueryItems c part, entry.2.failure? = none →
    Identifier.fault? entry.1 = none ∧ Labelled d entry.1 (entry.2.text d) := by
  intro entry found complete
  obtain found | found := List.mem_append.mp found
  · obtain ⟨r, -, rfl⟩ := List.mem_map.mp found
    exact Subquery.relation_labelled complete d
  · split at found
    · obtain found | found := List.mem_append.mp found
      · obtain ⟨count, -, rfl⟩ := List.mem_map.mp found
        exact Subquery.count_labelled complete d
      · obtain ⟨a, -, rfl⟩ := List.mem_map.mp found
        exact Subquery.aggregate_labelled complete d
    · exact absurd found List.not_mem_nil

/-- What begins with a quoted name is no subquery. -/
theorem name_unlabelled (table label : String) (rest : Draft) :
    ¬Labelled d label (Draft.text d (.name table :: rest)) := by
  rintro ⟨⟨more, begins⟩, -⟩
  obtain ⟨-, paren, -⟩ := quoteMark_ne d
  simp only [text_cons, Step.sql, Dialect.quote, String.toList_ofList, List.cons_append] at begins
  exact paren (List.cons.inj begins).1.symm

theorem items_unlabelled {columns : Columns} {mainAlias satelliteAlias : String} {item : Draft}
    (found : item ∈ columns.items mainAlias satelliteAlias) (label : String) :
    ¬Labelled d label (item.text d) := by
  rw [Columns.items, List.mem_append] at found
  obtain found | found := found
  · obtain ⟨column, -, rfl⟩ := List.mem_map.mp found
    exact name_unlabelled mainAlias label _
  · obtain ⟨column, -, rfl⟩ := List.mem_map.mp found
    exact name_unlabelled satelliteAlias label _

/-- A statement selects a subquery of some label exactly if its part carries it. -/
theorem labelled_iff (complete : (p.draft c part).failure? = none) (x : String) :
    (∃ item ∈ p.selection c part, Labelled c.dialect x item.sql.toList) ↔ p.emits part x = true := by
  obtain ⟨columns, resolved, items, -⟩ := (p.draft_complete_iff c part).mp complete
  rw [selection, resolved, p.emits_iff c]
  constructor
  · rintro ⟨_, known, labelled⟩
    obtain ⟨item, found, rfl⟩ := List.mem_map.mp known
    have labelled : Labelled c.dialect x (item.text c.dialect) := labelled
    have whole := items item found
    rw [selectItems_eq] at found
    split at found
    · obtain rfl := List.mem_singleton.mp found
      exact absurd labelled (name_unlabelled _ x _)
    · rw [askedItems_eq, List.mem_append] at found
      obtain found | found := found
      · exact absurd labelled (items_unlabelled found x)
      · obtain ⟨entry, carried, rfl⟩ := List.mem_map.mp found
        obtain ⟨valid, named⟩ := p.subqueryItems_labelled c part entry carried whole
        exact List.mem_map.mpr ⟨entry, carried, (labelled.unique valid named).symm⟩
  · intro emitted
    obtain ⟨entry, carried, rfl⟩ := List.mem_map.mp emitted
    have asked : entry.2 ∈ p.askedItems c part columns := by
      rw [askedItems_eq]
      exact List.mem_append_right _ (List.mem_map_of_mem carried)
    have found := p.mem_selectItems_of_asked c part columns asked
    have whole := items _ found
    exact ⟨_, List.mem_map_of_mem found, (p.subqueryItems_labelled c part entry carried whole).2⟩

end Selection

variable (p : Plan) (c : Compiler)

/-- That a statement selects some items from the base table, and tests groups as the plan does. -/
def TestsGroups (items : List Fragment) (s : Statement) : Prop :=
  ∃ rest, s = .ofFragment c.dialect (.select c.dialect p.table items rest) ∧
    (p.having.hasConditions = true →
      Draft.text c.dialect (.text " HAVING " :: p.having.conditions {}) <:+: rest.sql.toList)

/-- The statement of a part selects its items from the base table, and goes on with keys or with clauses. -/
theorem fragment_draft {part : Part} (complete : (p.draft c part).failure? = none) :
    (p.draft c part).fragment c.dialect = .select c.dialect p.table (p.selection c part)
      (Draft.fragment c.dialect
        (if part.byKeys then p.openKeys else p.satelliteJoin c ++ p.clauses c part)) := by
  obtain ⟨columns, resolved, -⟩ := (p.draft_complete_iff c part).mp complete
  rw [selection, resolved, draft, resolved, andThen, ← fragment_select]
  split <;> rfl

theorem draft_testsGroups {part : Part} {s : Statement} (whole : part.byKeys = false)
    (written : Statement.ofDraft c.dialect (p.draft c part) = .ok s) :
    p.TestsGroups c (p.selection c part) s := by
  obtain ⟨complete, rfl⟩ := (ofDraft_eq_ok_iff _ _ _).mp written
  refine ⟨_, congrArg _ (p.fragment_draft c complete), fun some => ?_⟩
  rw [whole, if_neg Bool.false_ne_true]
  refine ⟨Draft.text c.dialect (p.satelliteJoin c ++ p.joins.flatMap (joinDraft p.table) ++
    clause " WHERE " " AND " (p.tests c) ++
    clause " GROUP BY " ", " (p.groupBy.map (Sql.Draft.column (Option.some p.table)))),
    Draft.text c.dialect (p.orderTail c part " ORDER BY " p.order ++
      [.text (c.dialect.limitOffset (p.rowLimit c part) p.offset)]), ?_⟩
  change _ = Draft.text c.dialect (p.satelliteJoin c ++ p.clauses c part)
  rw [clauses, if_pos some]
  simp only [text_append, List.append_assoc]

/-- The subqueries that HAVING names. -/
def havingLabels : List String := p.having.mentions.filter p.isSubqueryLabel

/-- That all subqueries which HAVING names are among some items. -/
def SelectsNamed (items : List Fragment) : Prop :=
  ∀ x ∈ p.havingLabels, ∃ item ∈ items, Labelled c.dialect x item.sql.toList

theorem selectsNamed_iff {q : Plan} {part : Part} (complete : (q.draft c part).failure? = none) :
    p.SelectsNamed c (q.selection c part) ↔ ∀ x ∈ p.havingLabels, q.emits part x = true := by
  apply forall₂_congr
  intro x _
  exact q.labelled_iff c part complete x

/-- The statements that apply the HAVING of a plan, each of a part of the plan or of a variation of it. -/
inductive Groups : Plan → Part → Statement → Prop where
  | unsplit {s : Statement} : p.unsplit c = .ok s → Groups p p.wholePart s
  | base {s : Split} : p.split c = .ok s → Groups p (p.firstPart (p.firstBatch c.config)) s.base
  | baseOnly {keys : List String} {s : Statement} : p.baseOnly c keys = .ok s → Groups p (basePart keys) s
  | counted {s : Statement} :
    Statement.ofDraft c.dialect (p.countDraft c) = .ok s → Groups p.counted countedPart s
  | existence {s : Statement} : p.existence c = .ok s → Groups p.probed (basePart []) s

/-- That each of these statements selects the subqueries which its HAVING names. -/
def AlwaysSelectsNamed : Prop :=
  ∀ q part s, p.Groups c q part s → p.TestsGroups c (q.selection c part) s ∧
    p.SelectsNamed c (q.selection c part)

/-- Which of these statements select the subqueries that their HAVING names. -/
structure SelectsNamedWhere : Prop where
  tests : ∀ q part s, p.Groups c q part s → p.TestsGroups c (q.selection c part) s
  unsplit : ∀ s, p.unsplit c = .ok s → p.SelectsNamed c (p.selection c p.wholePart)
  base : ∀ s, p.split c = .ok s →
    (p.SelectsNamed c (p.selection c (p.firstPart (p.firstBatch c.config))) ↔
      ∀ x ∈ p.havingLabels, x ∈ (p.firstBatch c.config).map RelationRequest.label ∨
        x ∈ p.counts.map CountRequest.label ∨ x ∈ p.aggregates.map AggregateRequest.label)
  baseOnly : ∀ keys s, p.baseOnly c keys = .ok s →
    (p.SelectsNamed c (p.selection c (basePart keys)) ↔ p.havingLabels = [])
  counted : ∀ s, Statement.ofDraft c.dialect (p.countDraft c) = .ok s →
    (p.SelectsNamed c (p.counted.selection c countedPart) ↔
      ∀ x ∈ p.havingLabels, x ∈ p.counts.map CountRequest.label ∨
        x ∈ p.aggregates.map AggregateRequest.label)
  existence : ∀ s, p.existence c = .ok s →
    (p.SelectsNamed c (p.probed.selection c (basePart [])) ↔ p.havingLabels = [])

variable {p c}

theorem mem_havingLabels {x : String} : x ∈ p.havingLabels ↔
    x ∈ p.having.mentions ∧ p.isSubqueryLabel x = true := List.mem_filter

theorem table_counted : p.counted.table = p.table := by
  unfold counted
  dsimp only
  split <;> rfl

theorem having_counted : p.counted.having = p.having := by
  unfold counted
  dsimp only
  split <;> rfl

/-- With conditions for groups, counting keeps the counts and the aggregates. -/
theorem counted_emits_iff (some : p.having.hasConditions = true) (x : String) :
    p.counted.emits countedPart x = true ↔
      x ∈ p.counts.map CountRequest.label ∨ x ∈ p.aggregates.map AggregateRequest.label := by
  have kept : p.counted =
      { p with relations := [], order := [], limit := none, offset := none } := by
    unfold counted
    simp [some]
  rw [kept]
  simp [emits, countedPart]

theorem emits_basePart (keys : List String) (x : String) : ¬p.emits (basePart keys) x = true := by
  simp [emits, basePart]

/-- A statement without subqueries selects all that are named only if none is. -/
theorem selectsNamed_basePart_iff {q : Plan} {keys : List String}
    (complete : (q.draft c (basePart keys)).failure? = none) :
    p.SelectsNamed c (q.selection c (basePart keys)) ↔ p.havingLabels = [] := by
  rw [p.selectsNamed_iff c complete, List.eq_nil_iff_forall_not_mem]
  apply forall₂_congr
  intro x _
  exact iff_false_intro (emits_basePart keys x)

theorem Groups.tests {q : Plan} {part : Part} {s : Statement} (groups : p.Groups c q part s) :
    p.TestsGroups c (q.selection c part) s := by
  cases groups with
  | unsplit written => exact p.draft_testsGroups c rfl written
  | base split => exact p.draft_testsGroups c rfl (split_eq_ok_iff.mp split).1
  | baseOnly written => exact p.draft_testsGroups c rfl written
  | counted written =>
    have tested := p.counted.draft_testsGroups c rfl written
    rwa [TestsGroups, table_counted, having_counted] at tested
  | existence written => exact p.probed.draft_testsGroups c rfl written

/-- The statement of a whole plan selects what its HAVING names. The base statement of a split plan does if no
later batch is named, a count does if no relation is named, and the statements without subqueries do only if
none is named at all. -/
theorem selectsNamed_where (p : Plan) (c : Compiler) : p.SelectsNamedWhere c where
  tests _ _ _ groups := groups.tests
  unsplit s written := by
    have complete := ((ofDraft_eq_ok_iff _ _ _).mp written).1
    rw [p.selectsNamed_iff c complete]
    intro x named
    simpa [emits, wholePart, isSubqueryLabel, Bool.or_assoc] using (mem_havingLabels.mp named).2
  base s split := by
    have complete : (p.draft c (p.firstPart (p.firstBatch c.config))).failure? = none :=
      ((ofDraft_eq_ok_iff _ _ _).mp (split_eq_ok_iff.mp split).1).1
    rw [p.selectsNamed_iff c complete]
    apply forall₂_congr
    intro x _
    simp [emits, firstPart]
  baseOnly keys s written := selectsNamed_basePart_iff ((ofDraft_eq_ok_iff _ _ _).mp written).1
  counted s written := by
    have complete : (p.counted.draft c countedPart).failure? = none :=
      ((ofDraft_eq_ok_iff _ _ _).mp written).1
    rw [p.selectsNamed_iff c complete]
    apply forall₂_congr
    intro x named
    apply counted_emits_iff
    by_contra none
    have mentioned := (mem_havingLabels.mp named).1
    rw [Filter.mentions_eq_nil none] at mentioned
    exact List.not_mem_nil mentioned
  existence s written := selectsNamed_basePart_iff ((ofDraft_eq_ok_iff _ _ _).mp written).1

end Plan

namespace Popular

def compiler : Compiler :=
  { dialect := .sqlite
    registry := [("Comment", { type := "Comment", table := "comments", columns := ["article_id", "votes"] })]
    memo := []
    config := {} }

/-- Articles with more than two comments. -/
def articles : Plan :=
  { entity :=
      { type := "Article", table := "articles", columns := ["title"]
        relations := [("comments", .hasMany "Comment" "article_id" "id")] }
    counts := [{ relation := "comments" }]
    groupBy := ["id"]
    having := ({} : Filter).and (.compare "comments_count" .greaterThan (.int32 2)) }

/-- The statement that looks for one of them. -/
def probe : Statement :=
  ⟨"SELECT \x22articles\x22.\x22id\x22 FROM \x22articles\x22 GROUP BY \x22articles\x22.\x22id\x22 HAVING \x22comments_count\x22 > ? LIMIT 1",
    [.int32 2]⟩

end Popular

open Popular in
/-- Whether there is such an article is asked without the count that HAVING tests. -/
theorem not_alwaysSelectsNamed_articles :
    articles.existence compiler = .ok probe ∧ ¬articles.AlwaysSelectsNamed compiler := by
  have written : articles.existence compiler = .ok probe := by decide
  refine ⟨written, fun always => ?_⟩
  have selects := (always _ _ _ (.existence written)).2
  have complete := ((ofDraft_eq_ok_iff _ _ _).mp written).1
  have none := (Plan.selectsNamed_basePart_iff complete).mp selects
  exact absurd none (by decide)

end EagerLoad
