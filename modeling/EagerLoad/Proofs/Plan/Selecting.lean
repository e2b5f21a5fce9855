import EagerLoad.Proofs.Plan.Having
import EagerLoad.Proofs.Relation.Selecting

/-! # Select lists of statements

A statement that selects nothing selects the primary key, and a keyed one selects the owner's key. So every
SELECT has something to select, except in a relation whose derived table has no column to read. -/
namespace EagerLoad

open Sql Sql.Draft

variable {d : Dialect}

namespace Plan

section Clauses

variable (p : Plan) (c : Compiler) (part : Part)

theorem joinDraft_selecting (table : String) (j : Join) : Selecting d (joinDraft table j) := by
  have kind : hasSelect j.kind.sql = false := by cases j.kind <;> decide
  refine Selecting.append (Selecting.append (Selecting.append ?_ (.column _ _)) ?_) (.column _ _)
  · exact .word (by decide) (.word kind (.word (by decide) (.name _ (.word (by decide) .nil))))
  · exact .word (by decide) (.word j.operator.sql_selectless (.word (by decide) .nil))

theorem satelliteJoin_selecting : Selecting d (p.satelliteJoin c) := by
  unfold satelliteJoin
  split
  · exact Localization.join_selecting _ _ _ _ _
  · exact .nil

theorem searchDraft_selecting (s : Search) : Selecting c.dialect (p.searchDraft c s) := by
  unfold searchDraft
  generalize groupSearch p.entity s.columns = grouped
  obtain ⟨own, related⟩ := grouped
  refine Selecting.append (.word (by decide) (.separated (by decide) fun draft found => ?_))
    (.word (by decide) .nil)
  obtain found | found := List.mem_append.mp found
  · refine Subquery.searchTerms_selecting _ _ (fun column known => ?_) draft found
    obtain ⟨name, -, rfl⟩ := List.mem_map.mp known
    exact .column _ _
  · obtain ⟨group, -, rfl⟩ := List.mem_map.mp found
    exact Subquery.search_selecting (p.context c) _ _ _ _ _

theorem tests_selecting : ∀ test ∈ p.tests c, Selecting c.dialect test := by
  intro test found
  unfold tests at found
  obtain found | found := List.mem_append.mp found
  · obtain found | found := List.mem_append.mp found
    · split at found
      · obtain rfl := List.mem_singleton.mp found
        exact Selecting.append (.qualified _ _) (.word (by decide) .nil)
      · exact absurd found List.not_mem_nil
    · split at found
      · obtain rfl := List.mem_singleton.mp found
        exact Selecting.append (.word (by decide) (clausesDraft_selecting _ _)) (.word (by decide) .nil)
      · exact absurd found List.not_mem_nil
  · split at found
    · split at found
      · obtain rfl := List.mem_singleton.mp found
        exact p.searchDraft_selecting c _
      · exact absurd found List.not_mem_nil
    · exact absurd found List.not_mem_nil

theorem clause_selecting {keyword separator : String} {items : List Draft}
    (opening : hasSelect keyword = false) (between : hasSelect separator = false)
    (each : ∀ item ∈ items, Selecting d item) : Selecting d (clause keyword separator items) := by
  unfold clause
  split
  · exact .nil
  · exact .word opening (.separated between each)

theorem orderTail_selecting {separator : String} (plain : hasSelect separator = false)
    (terms : List OrderTerm) : Selecting d (p.orderTail c part separator terms) := by
  induction terms generalizing separator with
  | nil => exact .nil
  | cons term rest ih =>
    have next : Selecting d (p.orderTail c part ", " rest) := ih (by decide)
    unfold orderTail
    split
    · exact Selecting.append (.word plain (term.draft_selecting _)) next
    · split
      · exact Selecting.append (.word plain (term.draft_selecting _)) next
      · exact .other (by simp) (ih plain)

theorem clauses_selecting : Selecting c.dialect (p.clauses c part) := by
  refine ((((Selecting.append (.flatMap fun j _ => joinDraft_selecting _ j) ?_).append ?_).append ?_).append
    (p.orderTail_selecting c part (by decide) _)).append (.word (limitOffset_selectless _ _ _) .nil)
  · exact clause_selecting (by decide) (by decide) (p.tests_selecting c)
  · refine clause_selecting (by decide) (by decide) fun item found => ?_
    obtain ⟨column, -, rfl⟩ := List.mem_map.mp found
    exact .column _ _
  · split
    · exact .word (by decide) (clausesDraft_selecting _ _)
    · exact .nil

theorem openKeys_selecting : Selecting d p.openKeys :=
  Selecting.append (.word (by decide) (.qualified _ _)) (.word (by decide) .nil)

end Clauses

section Parts

variable {p : Plan} {c : Compiler} {part : Part}

theorem selectItems_ne_nil (columns : Columns) : p.selectItems c part columns ≠ [] := by
  rw [selectItems_eq]
  split
  · exact List.cons_ne_nil _ _
  case isFalse asked =>
    intro none
    exact asked (List.isEmpty_iff.mpr none)

/-- What a statement selects begins as items do. -/
theorem selectItems_beginItems {columns : Columns}
    (complete : ∀ item ∈ p.selectItems c part columns, item.failure? = none) :
    ∀ item ∈ p.selectItems c part columns, BeginsItem d (item.text d) := by
  have paren : ['('] ∈ itemOpenings d := by simp [itemOpenings]
  intro item found
  have whole := complete item found
  rw [selectItems_eq] at found
  split at found
  · obtain rfl := List.mem_singleton.mp found
    exact .name _ _
  · rw [askedItems_eq, List.mem_append] at found
    obtain found | found := found
    · exact columns.items_beginItems _ _ item found
    · obtain ⟨entry, carried, rfl⟩ := List.mem_map.mp found
      obtain ⟨-, ⟨rest, begins⟩, -⟩ := p.subqueryItems_labelled c part entry carried whole (d := d)
      rw [← begins]
      exact .of_mem paren ("SELECT ".toList ++ rest)

theorem selectItems_selecting {columns : Columns}
    (readable : ∀ r ∈ part.relations, ¬r.SelectsNothing (p.context c) p.entity) :
    ∀ item ∈ p.selectItems c part columns, Selecting c.dialect item := by
  intro item found
  rw [selectItems_eq] at found
  split at found
  · obtain rfl := List.mem_singleton.mp found
    exact .qualified _ _
  · obtain found | found | ⟨-, found | found⟩ := (p.mem_askedItems c part columns item).mp found
    · exact columns.items_selecting _ _ item found
    · obtain ⟨r, known, rfl⟩ := List.mem_map.mp found
      exact Subquery.relation_selecting (p.context c) _ _ (readable r known)
    · obtain ⟨count, -, rfl⟩ := List.mem_map.mp found
      exact Subquery.count_selecting (p.context c) _ _ count
    · obtain ⟨a, -, rfl⟩ := List.mem_map.mp found
      exact Subquery.aggregate_selecting (p.context c) _ _ a

theorem draft_selecting (readable : ∀ r ∈ part.relations, ¬r.SelectsNothing (p.context c) p.entity) :
    Selecting c.dialect (p.draft c part) := by
  refine Selecting.append (.quiet (by split <;> simp)) (.andThen fun columns _ => ?_)
  have selected : Selecting c.dialect (.text "SELECT " :: separated ", " (p.selectItems c part columns)) := by
    refine .opened (by decide) (fun complete => ?_) (.separated (by decide) (selectItems_selecting readable))
    exact .separated (selectItems_ne_nil columns)
      (selectItems_beginItems ((failure?_separated _ _).mp complete)) _
  refine (selected.append (.word (by decide) (.name _ .nil))).append ?_
  split
  · exact p.openKeys_selecting
  · exact (p.satelliteJoin_selecting c).append (p.clauses_selecting c part)

theorem infix_separated {items : List Draft} {item : Draft} (known : item ∈ items) (separator : String) :
    item <:+: separated separator items := by
  induction items with
  | nil => exact absurd known List.not_mem_nil
  | cons first rest ih =>
    cases rest with
    | nil =>
      obtain rfl := List.mem_singleton.mp known
      exact List.infix_rfl
    | cons next others =>
      rw [separated]
      · obtain rfl | later := List.mem_cons.mp known
        · exact (List.prefix_append _ _).isInfix
        · exact (ih later).trans ((List.suffix_cons _ _).trans (List.suffix_append _ _)).isInfix
      · simp

theorem relation_within {r : RelationRequest} (complete : (p.draft c part).failure? = none)
    (known : r ∈ part.relations) :
    (Subquery.relation (p.context c) p.entity p.table r).failure? = none ∧
      Subquery.relation (p.context c) p.entity p.table r <:+: p.draft c part := by
  obtain ⟨columns, resolved, items, -⟩ := (p.draft_complete_iff c part).mp complete
  have found : Subquery.relation (p.context c) p.entity p.table r ∈ p.selectItems c part columns := by
    apply p.mem_selectItems_of_asked c
    rw [mem_askedItems]
    exact .inr (.inl (List.mem_map_of_mem known))
  refine ⟨items _ found, ?_⟩
  rw [draft, resolved, andThen]
  have listed := (infix_separated found ", ").trans (List.suffix_cons (Step.text "SELECT ") _).isInfix
  refine List.IsInfix.trans ?_ (List.suffix_append _ _).isInfix
  exact (listed.trans (List.prefix_append _ _).isInfix).trans (List.prefix_append _ _).isInfix

/-- A statement has an item after every SELECT exactly if each of its relations selects something. -/
theorem draft_selectsItems_iff (complete : (p.draft c part).failure? = none) :
    SelectsItems c.dialect (p.draft c part) ↔
      ∀ r ∈ part.relations, ¬r.SelectsNothing (p.context c) p.entity := by
  constructor
  · intro selects r known nothing
    obtain ⟨whole, within⟩ := relation_within complete known
    exact selects.not_empty ((Subquery.relation_empty _ _ _ whole nothing).trans within)
  · intro readable
    exact draft_selecting readable complete

end Parts

variable (p : Plan) (c : Compiler)

/-- The drafts of the statements that are written for a plan. -/
inductive Writes : Draft → Prop where
  | unsplit {s : Statement} : p.unsplit c = .ok s → Writes (p.unsplitDraft c)
  | base {s : Split} : p.split c = .ok s → Writes (p.firstDraft c)
  | followUp {s : Split} {batch : List RelationRequest} : p.split c = .ok s →
    batch ∈ p.laterBatches c.config → Writes (p.draft c (p.laterPart batch))
  | baseOnly {keys : List String} {s : Statement} : p.baseOnly c keys = .ok s →
    Writes (p.baseOnlyDraft c keys)
  | counted {s : Statement} : p.count c = .ok s → Writes (p.countDraft c)
  | existence {s : Statement} : p.existence c = .ok s → Writes (p.existsDraft c)
  | keyedRelation {r : RelationRequest} {columns : ColumnSelection} {keys : List DbValue} {s : Statement} :
    Statement.ofDraft c.dialect (Keyed.relation (p.context c) p.entity r columns keys) = .ok s →
    Writes (Keyed.relation (p.context c) p.entity r columns keys)
  | keyedCount {n : CountRequest} {keys : List DbValue} {s : Statement} :
    Statement.ofDraft c.dialect (Keyed.count (p.context c) p.entity n keys) = .ok s →
    Writes (Keyed.count (p.context c) p.entity n keys)
  | keyedAggregate {a : AggregateRequest} {keys : List DbValue} {s : Statement} :
    Statement.ofDraft c.dialect (Keyed.aggregate (p.context c) p.entity a keys) = .ok s →
    Writes (Keyed.aggregate (p.context c) p.entity a keys)

/-- That no SELECT of a statement has an empty select list. -/
def AlwaysSelects : Prop := ∀ draft, p.Writes c draft → SelectsItems c.dialect draft

/-- Which statements have no SELECT with an empty select list. -/
structure SelectsWhere : Prop where
  unsplit : ∀ s, p.unsplit c = .ok s → (SelectsItems c.dialect (p.unsplitDraft c) ↔
    ∀ r ∈ p.relations, ¬r.SelectsNothing (p.context c) p.entity)
  base : ∀ s, p.split c = .ok s → (SelectsItems c.dialect (p.firstDraft c) ↔
    ∀ r ∈ p.firstBatch c.config, ¬r.SelectsNothing (p.context c) p.entity)
  followUps : ∀ s, p.split c = .ok s → ∀ batch ∈ p.laterBatches c.config,
    (SelectsItems c.dialect (p.draft c (p.laterPart batch)) ↔
      ∀ r ∈ batch, ¬r.SelectsNothing (p.context c) p.entity)
  baseOnly : ∀ keys s, p.baseOnly c keys = .ok s → SelectsItems c.dialect (p.baseOnlyDraft c keys)
  counted : ∀ s, p.count c = .ok s → SelectsItems c.dialect (p.countDraft c) ∧
    ∃ rest, s.sql.toList = "SELECT ".toList ++ rest ∧ BeginsItem c.dialect rest
  existence : ∀ s, p.existence c = .ok s → SelectsItems c.dialect (p.existsDraft c)
  keyedRelation : ∀ r columns keys s,
    Statement.ofDraft c.dialect (Keyed.relation (p.context c) p.entity r columns keys) = .ok s →
      SelectsItems c.dialect (Keyed.relation (p.context c) p.entity r columns keys)
  keyedCount : ∀ n keys s, Statement.ofDraft c.dialect (Keyed.count (p.context c) p.entity n keys) = .ok s →
    SelectsItems c.dialect (Keyed.count (p.context c) p.entity n keys)
  keyedAggregate : ∀ a keys s,
    Statement.ofDraft c.dialect (Keyed.aggregate (p.context c) p.entity a keys) = .ok s →
      SelectsItems c.dialect (Keyed.aggregate (p.context c) p.entity a keys)

variable {p c}

/-- Every SELECT of every statement has something to select, but in a relation of which no column can be read:
its derived table, which an order or a limit asks for, selects nothing. -/
theorem selects_where (p : Plan) (c : Compiler) : p.SelectsWhere c where
  unsplit s written := draft_selectsItems_iff ((ofDraft_eq_ok_iff _ _ _).mp written).1
  base s split := by
    obtain ⟨first, -⟩ := split_eq_ok_iff.mp split
    exact draft_selectsItems_iff ((ofDraft_eq_ok_iff _ _ _).mp first).1
  followUps s split batch listed := by
    obtain ⟨-, later, -⟩ := split_eq_ok_iff.mp split
    obtain ⟨f, -, written⟩ := exists_of_forall₂ later listed
    exact draft_selectsItems_iff (followUp_eq_ok_iff.mp written).1
  baseOnly keys s written := (draft_selecting (List.forall_mem_nil _)).of_ofDraft written
  counted s written := by
    obtain ⟨inner, done, rfl⟩ := map_eq_ok_iff.mp written
    refine ⟨(draft_selecting (List.forall_mem_nil _)).of_ofDraft done, ?_⟩
    have known : "COUNT(".toList ∈ itemOpenings c.dialect := by simp [itemOpenings]
    have opening : "SELECT COUNT(*) AS ".toList = "SELECT ".toList ++ ("COUNT(".toList ++ "*) AS ".toList) := by
      decide
    simp only [String.toList_append, opening, List.append_assoc]
    exact ⟨_, rfl, .of_mem known _⟩
  existence s written := (draft_selecting (List.forall_mem_nil _)).of_ofDraft written
  keyedRelation r columns keys s written :=
    (Keyed.relation_selecting (p.context c) _ keys r columns).of_ofDraft written
  keyedCount n keys s written := (Keyed.count_selecting (p.context c) _ keys n).of_ofDraft written
  keyedAggregate a keys s written := (Keyed.aggregate_selecting (p.context c) _ keys a).of_ofDraft written

end Plan

namespace Unreadable

def compiler : Compiler :=
  { dialect := .sqlite
    registry :=
      [("Tag",
        { type := "Tag", table := "tags", columns := ["slug"], localized := some (.ofFields ["name"]) })]
    memo := []
    config := {} }

/-- Articles with the names of three of their tags, which are localized, in no locale. -/
def articles : Plan :=
  { entity :=
      { type := "Article", table := "articles", columns := ["title"]
        relations := [("tags", .manyToMany "Tag" "article_tag" "article_id" "tag_id")] }
    relations :=
      [{ name := "tags", kind := .manyToMany, columns := .columns ["name"], filter := some { limit := some 3 } }] }

/-- Where the tags are read from. -/
def source : Source :=
  ⟨"tags", .manyToMany "Tag" "article_tag" "article_id" "tag_id",
    { type := "Tag", table := "tags", columns := ["slug"], localized := some (.ofFields ["name"]) }, none⟩

end Unreadable

open Unreadable in
/-- The derived table of the tags has no select list. -/
theorem not_alwaysSelects_articles :
    (∃ s, articles.unsplit compiler = .ok s ∧ " FROM (SELECT  FROM ".toList <:+: s.sql.toList) ∧
      ¬articles.AlwaysSelects compiler := by
  have complete : (articles.unsplitDraft compiler).failure? = none := by decide
  have written : articles.unsplit compiler =
      .ok (.ofFragment .sqlite ((articles.unsplitDraft compiler).fragment .sqlite)) :=
    (ofDraft_eq_ok_iff _ _ _).mpr ⟨complete, rfl⟩
  obtain ⟨tags, known⟩ : ∃ r, articles.relations = [r] := ⟨_, rfl⟩
  have member : tags ∈ articles.relations := known ▸ List.mem_cons_self
  have nothing : tags.SelectsNothing (articles.context compiler) articles.entity := by
    obtain rfl := List.singleton_inj.mp known
    exact ⟨source, {}, rfl, rfl, rfl, rfl, rfl⟩
  obtain ⟨whole, within⟩ := Plan.relation_within complete member
  have empty := (Subquery.relation_empty _ _ _ whole nothing).trans within
  have shown : " FROM (SELECT  FROM ".toList <:+: (articles.unsplitDraft compiler).text .sqlite := by
    have words : Draft.text .sqlite [.text " FROM (SELECT ", .text " FROM "] =
        " FROM (SELECT  FROM ".toList := by decide
    rw [← words]
    exact text_within empty
  refine ⟨⟨_, written, shown⟩, fun always => ?_⟩
  have selects : SelectsItems _ (articles.unsplitDraft compiler) := always _ (.unsplit written)
  exact selects.not_empty empty

end EagerLoad
