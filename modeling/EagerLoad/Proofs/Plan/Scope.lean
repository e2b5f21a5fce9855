import EagerLoad.Proofs.Plan.Split
import EagerLoad.Proofs.Plan.Written
import EagerLoad.Proofs.Relation.Worded

/-! # Predicates stay in their place

Whatever filter and search a plan has, the rows of each of its statements have to pass the statement's own
tests too: the conditions of a caller are one test in parentheses, joined to the others by AND. -/
namespace EagerLoad

open Sql Sql.Draft

variable {d : Dialect}

namespace Plan

section Clauses

variable (p : Plan) (c : Compiler) (part : Part)

theorem joinDraft_worded (table : String) (j : Join) :
    Draft.Worded d ['W'] false (joinDraft table j) false := by
  have kind : Sql.Worded ['W'] true j.kind.sql.toList false := by
    cases j.kind <;> decide
  have joined : Draft.Worded d ['W'] false [Step.text " ", Step.text j.kind.sql, Step.text " ",
      .name j.table, Step.text " ON "] true :=
    .spaced (by decide) (.word kind (.spaced (by decide) (.name (by decide) _ (.spaced (by decide) .nil))))
  have compared : Draft.Worded d ['W'] false [Step.text " ", Step.text j.operator.sql, Step.text " "]
      true :=
    .spaced (by decide) (.word (Comparison.sql_worded _) (.spaced (by decide) .nil))
  exact ((joined.append (.column (by decide) _ _)).append compared).append (.column (by decide) _ _)

theorem satelliteJoin_worded : Draft.Worded d ['W'] false (p.satelliteJoin c) false := by
  unfold satelliteJoin
  split
  · exact Localization.join_worded _ _ _ _ _
  · exact .nil

/-- What a select list holds is in parentheses or has no keyword. -/
theorem selectItems_worded (free : p.raws = []) (known : part.relations ⊆ p.relations)
    (columns : Columns) : ∀ item ∈ p.selectItems c part columns,
      ∀ fresh, Draft.Worded d ['W'] fresh item false := by
  intro item found fresh
  simp only [raws, List.append_eq_nil_iff, List.flatMap_eq_nil_iff] at free
  obtain ⟨⟨⟨-, relations⟩, counts⟩, aggregates⟩ := free
  rw [selectItems_eq] at found
  split at found
  · obtain rfl := List.mem_singleton.mp found
    exact .qualified (by decide) _ _
  · obtain found | found | ⟨-, found | found⟩ := (p.mem_askedItems c part columns item).mp found
    · exact columns.items_worded _ _ item found fresh
    · obtain ⟨r, asked, rfl⟩ := List.mem_map.mp found
      exact Subquery.relation_worded (relations r (known asked)) fresh
    · obtain ⟨count, asked, rfl⟩ := List.mem_map.mp found
      exact Subquery.count_worded (counts count asked) fresh
    · obtain ⟨aggregate, asked, rfl⟩ := List.mem_map.mp found
      exact Subquery.aggregate_worded (aggregates aggregate asked) fresh

theorem searchDraft_worded (s : Search) :
    Draft.Worded d testStarts true (p.searchDraft c s) false := by
  unfold searchDraft
  generalize groupSearch p.entity s.columns = grouped
  obtain ⟨own, related⟩ := grouped
  refine .enclosed 0 (by decide) (Draft.Balanced.separated (by decide) fun draft found => ?_)
    (by decide) .nil
  obtain found | found := List.mem_append.mp found
  · refine Subquery.searchTerms_balanced _ _ (fun column known => ?_) draft found
    obtain ⟨name, -, rfl⟩ := List.mem_map.mp known
    have worded : Draft.Worded d [] true ((p.qualifier c).column name) false :=
      (p.qualifier c).column_worded (by decide) name
    exact worded.balanced
  · obtain ⟨group, -, rfl⟩ := List.mem_map.mp found
    exact Subquery.search_balanced _ _ _

/-- No test of base rows is taken apart by a keyword. -/
theorem tests_worded (free : p.filter.raws = []) :
    ∀ test ∈ p.tests c, Draft.Worded d testStarts true test false := by
  intro test found
  unfold tests at found
  obtain found | found := List.mem_append.mp found
  · obtain found | found := List.mem_append.mp found
    · split at found
      · obtain rfl := List.mem_singleton.mp found
        exact Draft.Worded.append (.qualified (by decide) _ _) (.word (by decide) .nil)
      · exact absurd found (by simp)
    · split at found
      · obtain rfl := List.mem_singleton.mp found
        exact p.filter.test_worded _ free
      · exact absurd found (by simp)
  · split at found
    · split at found
      · obtain rfl := List.mem_singleton.mp found
        exact p.searchDraft_worded c _
      · exact absurd found (by simp)
    · exact absurd found (by simp)

theorem clause_complete {keyword separator : String} {items : List Draft}
    (complete : (clause keyword separator items).failure? = none) :
    ∀ item ∈ items, item.failure? = none := by
  unfold clause at complete
  split at complete
  · rename_i none
    intro item found
    exact absurd found (by simp [List.isEmpty_iff.mp none])
  · exact (failure?_separated _ _).mp ((failure?_cons _ _).mp complete).2

theorem text_separated_and (tests : List Draft) :
    (separated " AND " tests).text d = joined (tests.map (Draft.text d)) := by
  induction tests with
  | nil => rfl
  | cons test rest ih =>
    cases rest with
    | nil => simp [separated, joined, List.intercalate]
    | cons next others =>
      rw [List.map_cons] at ih
      rw [List.map_cons, List.map_cons, joined_cons, ← ih]
      simp [separated, Step.sql]

/-- Tests with AND between them are the clause of their texts. -/
theorem text_clause_where (tests : List Draft) :
    (clause " WHERE " " AND " tests).text d = whereText (tests.map (Draft.text d)) := by
  unfold clause whereText
  cases tests with
  | nil => rfl
  | cons test rest =>
    rw [if_neg (by simp), if_neg (by simp), text_cons, text_separated_and]
    rfl

/-- What may stand after a WHERE: nothing, or another clause. -/
private def Follows (d : Dialect) (draft : Draft) : Prop :=
  Draft.Worded d ['W'] false draft false ∧ Ends (draft.text d)

private theorem Follows.nil : Follows d [] := ⟨.nil, .inl rfl⟩

private theorem Follows.append {a b : Draft} (ha : Follows d a) (hb : Follows d b) :
    Follows d (a ++ b) := by
  rw [Follows, text_append]
  exact ⟨ha.1.append hb.1, ha.2.append hb.2⟩

theorem groups_follow : Follows d
    (clause " GROUP BY " ", " (p.groupBy.map (Sql.Draft.column (some p.table)))) := by
  unfold clause
  split
  · exact .nil
  · rename_i some
    constructor
    · refine .spaced (by decide) (.separated (by simpa using some) (by decide) fun item found fresh => ?_)
      obtain ⟨column, -, rfl⟩ := List.mem_map.mp found
      exact .column (by decide) _ _
    · exact ends_text "GROUP" "BY " (by decide) (by decide) _

theorem orderTail_worded {separator : String} (known : Sql.Worded ['W'] false separator.toList true)
    (terms : List OrderTerm) :
    Draft.Worded d ['W'] false (p.orderTail c part separator terms) false := by
  induction terms generalizing separator with
  | nil => exact .nil
  | cons term rest ih =>
    have next : Draft.Worded d ['W'] false (p.orderTail c part ", " rest) false := ih (by decide)
    unfold orderTail
    split
    · exact Draft.Worded.append (.spaced known (term.draft_worded _)) next
    · split
      · exact Draft.Worded.append (.spaced known (term.draft_worded _)) next
      · exact .silent rfl (ih known)

theorem orderTail_follows (terms : List OrderTerm) :
    Follows d (p.orderTail c part " ORDER BY " terms) := by
  refine ⟨p.orderTail_worded c part (by decide) terms, ?_⟩
  induction terms with
  | nil => exact .inl rfl
  | cons term rest ih =>
    have opened (draft : Draft) : Ends (Draft.text d (Step.text " ORDER BY " :: draft)) :=
      ends_text "ORDER" "BY " (by decide) (by decide) _
    unfold orderTail
    split
    · exact opened _
    · split
      · exact opened _
      · exact ih

theorem having_follows (free : p.having.raws = []) :
    Follows d (if p.having.hasConditions then Step.text " HAVING " :: p.having.conditions {} else []) := by
  split
  · rename_i some
    exact ⟨.spaced (by decide) (p.having.conditions_worded {} some free),
      ends_text "HAVING" "" (by decide) (by decide) _⟩
  · exact .nil

theorem limit_follows (rowLimit offset : Option Nat) :
    Follows d [Step.text (c.dialect.limitOffset rowLimit offset)] := by
  have limited := worded_limitOffset c.dialect rowLimit offset
  refine ⟨.word limited.1 .nil, ?_⟩
  simpa [Step.sql] using limited.2

/-- What a statement of base rows says before its WHERE. -/
private def front (columns : Columns) : Draft :=
  Step.text "SELECT " :: separated ", " (p.selectItems c part columns) ++
    [Step.text " FROM ", .name p.table] ++ p.satelliteJoin c ++ p.joins.flatMap (joinDraft p.table)

/-- What a statement of base rows says after its WHERE. -/
private def back : Draft :=
  clause " GROUP BY " ", " (p.groupBy.map (Sql.Draft.column (some p.table))) ++
    (if p.having.hasConditions then Step.text " HAVING " :: p.having.conditions {} else []) ++
    p.orderTail c part " ORDER BY " p.order ++
    [Step.text (c.dialect.limitOffset (p.rowLimit c part) p.offset)]

private theorem front_worded (free : p.raws = []) (known : part.relations ⊆ p.relations)
    (columns : Columns) : Draft.Worded d ['W'] true (p.front c part columns) false := by
  have asked : p.selectItems c part columns ≠ [] := by
    rw [selectItems_eq]
    split
    · simp
    · rename_i some
      exact fun none => some (by simp [none])
  have items : Draft.Worded d ['W'] true
      (Step.text "SELECT " :: separated ", " (p.selectItems c part columns)) false :=
    .spaced (by decide) (.separated asked (by decide) (p.selectItems_worded c part free known columns))
  have table : Draft.Worded d ['W'] false [Step.text " FROM ", .name p.table] false :=
    .spaced (by decide) (.name (by decide) _ .nil)
  have joins : Draft.Worded d ['W'] false (p.joins.flatMap (joinDraft p.table)) false :=
    .flatMap fun j _ => joinDraft_worded p.table j
  exact ((items.append table).append (p.satelliteJoin_worded c)).append joins

private theorem back_follows (free : p.having.raws = []) : Follows d (p.back c part) :=
  (((p.groups_follow).append (p.having_follows free)).append
    (p.orderTail_follows c part p.order)).append (limit_follows c _ _)

/-- The text of a statement of base rows is its WHERE between the two. -/
private theorem text_draft (whole : part.byKeys = false) {columns : Columns}
    (resolved : p.partColumns c part = .ok columns) : (p.draft c part).text d =
      (p.front c part columns).text d ++ whereText ((p.tests c).map (Draft.text d)) ++
        (p.back c part).text d := by
  have consulted : Draft.text d (if p.locale.isSome then
      [.consult p.entity.type (p.localization? c)] else []) = [] := by
    split <;> rfl
  rw [draft, text_append, consulted, resolved, Draft.andThen, whole, if_neg Bool.false_ne_true]
  simp only [clauses, front, back, text_append, text_clause_where, List.append_assoc,
    List.nil_append]

/-- A draft that selects the rows of a plan tests them as the plan does. -/
theorem draft_guarded (free : p.raws = []) (known : part.relations ⊆ p.relations)
    (whole : part.byKeys = false) : Draft.Guarded d (p.tests c) (p.draft c part) := by
  intro complete
  have own : p.filter.raws = [] ∧ p.having.raws = [] := by
    simp only [raws, List.append_eq_nil_iff] at free
    exact free.1.1.1
  obtain ⟨columns, resolved, items, table, rest⟩ := (p.draft_complete_iff c part).mp complete
  rw [whole, if_neg Bool.false_ne_true] at rest
  simp only [clauses, failure?_append] at rest
  obtain ⟨satellite, ⟨⟨⟨⟨joins, tests⟩, groups⟩, having⟩, order⟩, limit⟩ := rest
  have first : (p.front c part columns).failure? = none := by
    simp only [front, failure?_append, failure?_cons, failure?_separated]
    exact ⟨⟨⟨⟨rfl, items⟩, rfl, table, rfl⟩, satellite⟩, joins⟩
  have last : (p.back c part).failure? = none := by
    simp only [back, failure?_append]
    exact ⟨⟨⟨groups, having⟩, order⟩, limit⟩
  have follows : Follows d (p.back c part) := p.back_follows c part own.2
  refine ⟨_, _, p.text_draft c part whole resolved, p.front_worded c part free known columns first,
    ?_, follows.2, follows.1 last⟩
  intro t found
  obtain ⟨test, asked, rfl⟩ := List.mem_map.mp found
  exact p.tests_worded c own.1 test asked (clause_complete tests test asked)

/-- The finished statement of such a draft has these tests, and no others. -/
theorem draft_tests {s : Statement} (free : p.raws = []) (known : part.relations ⊆ p.relations)
    (whole : part.byKeys = false) (done : Statement.ofDraft c.dialect (p.draft c part) = .ok s) :
    Draft.Tests c.dialect (p.tests c) s := by
  have written : Written .rawless (p.draft c part) :=
    p.draft_written c part (fun _ _ _ _ => trivial) (fun _ => trivial) known
      (by simp [free])
  exact Draft.Guarded.finished (p.draft_guarded c part free known whole) written done

end Clauses

section Places

variable (p : Plan) (c : Compiler)

/-- The tests of the rows that a subquery or a keyed statement reads from a relation: those of the
relation, and the conditions of a filter as one test. -/
def relationTests (s : Source) (link : Link) (filter : Option Filter) : List Draft :=
  s.tests p.entity link ++ s.filterTests filter

/-- That no predicate of a plan reaches beyond its place. -/
structure InScope : Prop where
  filters : ∀ (q : Qualifier) (f : Filter), f.raws = [] → (f.conditions q).failure? = none →
    Sql.Balanced ((f.conditions q).text c.dialect)
  compiled : ∀ compiled, p.compile c = .ok compiled →
    Draft.Tests c.dialect (p.tests c) compiled.query.base
  unsplit : ∀ s, p.unsplit c = .ok s → Draft.Tests c.dialect (p.tests c) s
  baseOnly : ∀ forced s, p.baseOnly c forced = .ok s → Draft.Tests c.dialect (p.tests c) s
  existence : ∀ s, p.existence c = .ok s → Draft.Tests c.dialect (p.tests c) s
  counted : ∀ s, Statement.ofDraft c.dialect (p.countDraft c) = .ok s →
    Draft.Tests c.dialect (p.tests c) s
  relation : ∀ r ∈ p.relations,
    (Subquery.relation (p.context c) p.entity p.table r).failure? = none →
      ∃ s, Source.resolve (p.context c) p.entity r.name true = .ok s ∧
        Scoped (subselect ((Subquery.relation (p.context c) p.entity p.table r).text c.dialect))
          ((p.relationTests s (.correlated p.table) r.filter).map (Draft.text c.dialect))
  count : ∀ n ∈ p.counts, (Subquery.count (p.context c) p.entity p.table n).failure? = none →
    ∃ s, Source.resolve (p.context c) p.entity n.relation false = .ok s ∧
      Requires (subselect ((Subquery.count (p.context c) p.entity p.table n).text c.dialect))
        ((p.relationTests s (.correlated p.table) n.filter).map (Draft.text c.dialect))
  aggregate : ∀ a ∈ p.aggregates,
    (Subquery.aggregate (p.context c) p.entity p.table a).failure? = none →
      ∃ s, Source.resolve (p.context c) p.entity a.relation false = .ok s ∧
        Requires (subselect ((Subquery.aggregate (p.context c) p.entity p.table a).text c.dialect))
          ((p.relationTests s (.correlated p.table) a.filter).map (Draft.text c.dialect))
  search : ∀ name columns pattern,
    (Subquery.search (p.context c) p.entity p.table name columns pattern).failure? = none →
      ∃ s, Source.resolve (p.context c) p.entity name false = .ok s ∧
        Requires (subselect
            ((Subquery.search (p.context c) p.entity p.table name columns pattern).text c.dialect))
          ((s.tests p.entity (.correlated p.table) ++
            [Subquery.searchTest c.dialect s columns pattern]).map (Draft.text c.dialect))
  keyedRelation : ∀ r ∈ p.relations, ∀ columns keys statement,
    Statement.ofDraft c.dialect (Keyed.relation (p.context c) p.entity r columns keys) =
        .ok statement →
      ∃ s, Source.resolve (p.context c) p.entity r.name true = .ok s ∧
        Draft.Tests c.dialect (p.relationTests s (.keys keys) r.filter) statement
  keyedCount : ∀ n ∈ p.counts, ∀ keys statement,
    Statement.ofDraft c.dialect (Keyed.count (p.context c) p.entity n keys) = .ok statement →
      ∃ s, Source.resolve (p.context c) p.entity n.relation false = .ok s ∧
        Draft.Tests c.dialect (p.relationTests s (.keys keys) n.filter) statement
  keyedAggregate : ∀ a ∈ p.aggregates, ∀ keys statement,
    Statement.ofDraft c.dialect (Keyed.aggregate (p.context c) p.entity a keys) = .ok statement →
      ∃ s, Source.resolve (p.context c) p.entity a.relation false = .ok s ∧
        Draft.Tests c.dialect (p.relationTests s (.keys keys) a.filter) statement

variable {p c}

theorem compile_tests (free : p.raws = []) {compiled : CompiledPlan}
    (done : p.compile c = .ok compiled) : Draft.Tests c.dialect (p.tests c) compiled.query.base := by
  obtain ⟨-, -, query⟩ := compile_eq_ok_iff.mp done
  split at query
  · obtain ⟨s, split, same⟩ := query
    obtain ⟨first, -, -⟩ := split_eq_ok_iff.mp split
    rw [same]
    exact p.draft_tests c _ free (p.firstBatch_subset c.config) rfl first
  · obtain ⟨s, single, same⟩ := query
    rw [same]
    exact p.draft_tests c p.wholePart free (List.Subset.refl _) rfl single

/-- Counting keeps the tests of the rows. -/
theorem tests_counted : p.counted.tests c = p.tests c := by
  unfold counted
  dsimp only
  split <;> rfl

/-- However a plan without raw texts nests its conditions and joins them by OR, and whatever it searches
for, each of its statements has the tests of its place, and what the caller asks for is one of them. -/
theorem inScope_of_rawless (free : p.raws = []) : p.InScope c := by
  have unraw : ∀ {plan : Plan}, plan.raws ⊆ p.raws → plan.raws = [] := fun less =>
    List.eq_nil_iff_forall_not_mem.mpr fun sql found => by simpa [free] using less found
  have parts := free
  simp only [raws, List.append_eq_nil_iff, List.flatMap_eq_nil_iff] at parts
  obtain ⟨⟨⟨-, relations⟩, counts⟩, aggregates⟩ := parts
  have looked : (p.context c).Consults .rawless := fun _ _ _ _ => trivial
  have rawless {filter : Option Filter} (none : rawsOf filter = []) :
      ∀ sql ∈ rawsOf filter, Allowed.rawless.raw sql := by simp [none]
  constructor
  case filters => exact fun q f none => clausesDraft_balanced q f.clauses none
  case compiled => exact fun compiled done => compile_tests free done
  case unsplit => exact fun s done => p.draft_tests c _ free (List.Subset.refl _) rfl done
  case baseOnly => exact fun forced s done => p.draft_tests c _ free (List.nil_subset _) rfl done
  case existence =>
    exact fun s done => p.probed.draft_tests c _ (unraw p.raws_probed) (List.nil_subset _) rfl done
  case counted =>
    intro s done
    rw [← tests_counted]
    exact p.counted.draft_tests c _ (unraw p.raws_counted) (List.nil_subset _) rfl done
  case relation =>
    intro r asked complete
    obtain ⟨s, columns, shape, resolved, -⟩ := Subquery.relation_parts complete
    exact ⟨s, resolved, Subquery.relation_scoped (relations r asked) resolved complete⟩
  case count =>
    intro n asked complete
    obtain ⟨s, resolved, -⟩ := Subquery.count_parts complete
    exact ⟨s, resolved, Subquery.count_requires (counts n asked) resolved complete⟩
  case aggregate =>
    intro a asked complete
    obtain ⟨s, resolved, -⟩ := Subquery.aggregate_parts complete
    exact ⟨s, resolved, Subquery.aggregate_requires (aggregates a asked) resolved complete⟩
  case search =>
    intro name columns pattern complete
    obtain ⟨s, resolved, -⟩ := Source.failure?_andThen.mp complete
    exact ⟨s, resolved, Subquery.search_requires resolved complete⟩
  case keyedRelation =>
    intro r asked columns keys statement done
    have complete := ((ofDraft_eq_ok_iff _ _ _).mp done).1
    obtain ⟨s, resolved, -⟩ := Source.failure?_andThen.mp complete
    have written : Written .rawless (Keyed.relation (p.context c) p.entity r columns keys) :=
      Keyed.relation_written keys looked r columns (rawless (relations r asked))
    have guarded := Keyed.relation_guarded (d := c.dialect) keys (relations r asked) columns resolved
    exact ⟨s, resolved, guarded.finished written done⟩
  case keyedCount =>
    intro n asked keys statement done
    have complete := ((ofDraft_eq_ok_iff _ _ _).mp done).1
    obtain ⟨s, resolved, -⟩ := Source.failure?_andThen.mp complete
    have written : Written .rawless (Keyed.count (p.context c) p.entity n keys) :=
      Keyed.count_written keys looked n (rawless (counts n asked))
    have guarded := Keyed.count_guarded (d := c.dialect) keys (counts n asked) resolved
    exact ⟨s, resolved, guarded.finished written done⟩
  case keyedAggregate =>
    intro a asked keys statement done
    have complete := ((ofDraft_eq_ok_iff _ _ _).mp done).1
    obtain ⟨s, resolved, -⟩ := Source.failure?_andThen.mp complete
    have written : Written .rawless (Keyed.aggregate (p.context c) p.entity a keys) :=
      Keyed.aggregate_written keys looked a (rawless (aggregates a asked))
    have guarded := Keyed.aggregate_guarded (d := c.dialect) keys (aggregates a asked) resolved
    exact ⟨s, resolved, guarded.finished written done⟩

/-- Posts and their comments, both of which can be deleted and stay in their tables. -/
def archive : Compiler :=
  { dialect := .postgresql
    registry := [("Comment", { type := "Comment", table := "comments", softDeletes := true })]
    memo := []
    config := {} }

/-- Posts by either of two authors that mention a word, with their good or recent comments. -/
def eitherAuthor : Plan :=
  { entity :=
      { type := "Post", table := "posts", softDeletes := true
        relations := [("comments", .hasMany "Comment" "post" "id")] }
    relations :=
      [{ name := "comments", kind := .collection
         filter := some ((({} : Filter).and (.compare "score" .greaterThan (.int32 3))).or
           (.between "year" (.int32 2020) (.int32 2030))) }]
    filter := (({} : Filter).and (.compare "author" .equal (.text "ann"))).or
      (.compare "author" .equal (.text "bob"))
    search := some ⟨"lean", ["title", "comments.body"]⟩ }

theorem inScope_eitherAuthor : eitherAuthor.raws = [] ∧ (eitherAuthor.tests archive).length = 3 ∧
    ∃ s, eitherAuthor.unsplit archive = .ok s ∧
      Draft.Tests .postgresql (eitherAuthor.tests archive) s := by
  have free : eitherAuthor.raws = [] := by decide
  have complete : (eitherAuthor.unsplitDraft archive).failure? = none := by decide
  have written :=
    (ofDraft_eq_ok_iff archive.dialect (eitherAuthor.unsplitDraft archive) _).mpr ⟨complete, rfl⟩
  exact ⟨free, by decide, _, written, (inScope_of_rawless free).unsplit _ written⟩

end Places

end Plan
end EagerLoad
