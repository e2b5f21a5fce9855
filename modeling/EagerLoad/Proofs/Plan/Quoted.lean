import EagerLoad.Proofs.Plan.Split
import EagerLoad.Proofs.Plan.Written
import EagerLoad.Proofs.Relation.Spaced

/-! # Names only in quotes

Without raw texts a statement holds nothing of a caller's but valid names, in quotes or in the literals of
JSON keys: what stands outside of quotes is made of fixed words and numbers. -/
namespace EagerLoad

open Sql Sql.Draft

namespace Plan

section Parts

variable (p : Plan) (c : Compiler) (part : Part)

theorem selectItems_spaced (columns : Columns) :
    ∀ item ∈ p.selectItems c part columns, Spaced false item := by
  have asked : ∀ item ∈ p.askedItems c part columns, Spaced false item := by
    intro item found
    obtain found | found | ⟨-, found | found⟩ := (p.mem_askedItems c part columns item).mp found
    · exact columns.items_spaced _ _ item found
    · obtain ⟨r, -, rfl⟩ := List.mem_map.mp found
      exact (Subquery.relation_spaced _ _ _ r).loosen false
    · obtain ⟨count, -, rfl⟩ := List.mem_map.mp found
      exact (Subquery.count_spaced _ _ _ count).loosen false
    · obtain ⟨aggregate, -, rfl⟩ := List.mem_map.mp found
      exact (Subquery.aggregate_spaced _ _ _ aggregate).loosen false
  intro item found
  rw [selectItems_eq] at found
  split at found
  · obtain rfl := List.mem_singleton.mp found
    exact .qualified _ _
  · exact asked item found

theorem satelliteJoin_spaced : Spaced true (p.satelliteJoin c) := by
  unfold satelliteJoin
  split
  · exact Localization.join_spaced _ _ _ _ _
  · exact .nil

theorem joinDraft_spaced (table : String) (j : Join) : Spaced true (joinDraft table j) := by
  have kind : beginsPlain j.kind.sql = true := by cases j.kind <;> decide
  have operator : Spaced true ([.text " ", .text j.operator.sql, .text " "] ++
      Draft.column (some j.table) j.second) :=
    .word (by decide) (.word j.operator.sql_plain (.word (by decide) (.column _ _)))
  have table : Spaced true (.text " " :: .text j.kind.sql :: .text " " :: .name j.table ::
      .text " ON " :: Draft.column (some table) j.first) :=
    .word (by decide) (.word kind (.word (by decide) (.name _ (.word (by decide) (.column _ _)))))
  unfold joinDraft
  rw [List.append_assoc]
  exact table.append operator

theorem searchDraft_spaced (s : Search) : Spaced true (p.searchDraft c s) := by
  unfold searchDraft
  generalize groupSearch p.entity s.columns = grouped
  obtain ⟨own, related⟩ := grouped
  refine Spaced.append (.word (by decide) (Spaced.separated (by decide) fun draft found => ?_))
    (.word (by decide) .nil)
  obtain found | found := List.mem_append.mp found
  · refine Subquery.searchTerms_spaced _ _ _ (fun column known => ?_) draft found
    obtain ⟨name, -, rfl⟩ := List.mem_map.mp known
    exact Qualifier.column_spaced _ _
  · obtain ⟨group, -, rfl⟩ := List.mem_map.mp found
    exact (Subquery.search_spaced _ _ _ _ _ _).loosen false

theorem tests_spaced : ∀ test ∈ p.tests c, Spaced false test := by
  intro test found
  unfold tests at found
  obtain found | found := List.mem_append.mp found
  · obtain found | found := List.mem_append.mp found
    · split at found
      · obtain rfl := List.mem_singleton.mp found
        exact (Spaced.qualified _ _).append (.word (by decide) .nil)
      · exact absurd found (by simp)
    · split at found
      · obtain rfl := List.mem_singleton.mp found
        exact .word (by decide) ((clausesDraft_spaced _ _).append (.word (by decide) .nil))
      · exact absurd found (by simp)
  · split at found
    · split at found
      · obtain rfl := List.mem_singleton.mp found
        exact (p.searchDraft_spaced c _).loosen false
      · exact absurd found (by simp)
    · exact absurd found (by simp)

theorem clause_spaced {keyword separator : String} {items : List Draft}
    (opening : beginsPlain keyword = true) (between : beginsPlain separator = true)
    (h : ∀ item ∈ items, Spaced false item) : Spaced true (clause keyword separator items) := by
  unfold clause
  split
  · exact .nil
  · exact .word opening (Spaced.separated between h)

theorem orderTail_spaced (separator : String) (plain : beginsPlain separator = true)
    (terms : List OrderTerm) : Spaced true (p.orderTail c part separator terms) := by
  induction terms generalizing separator with
  | nil => exact .nil
  | cons term rest ih =>
    have next := ih ", " (by decide)
    unfold orderTail
    split
    · exact .word plain ((term.draft_spaced _).append next)
    · split
      · exact .word plain ((term.draft_spaced _).append next)
      · exact .silent rfl (ih separator plain)

theorem clauses_spaced : Spaced true (p.clauses c part) := by
  have joins : Spaced true (p.joins.flatMap (joinDraft p.table)) :=
    Spaced.flatMap fun j _ => joinDraft_spaced p.table j
  have tests : Spaced true (clause " WHERE " " AND " (p.tests c)) :=
    clause_spaced (by decide) (by decide) (p.tests_spaced c)
  have groups : Spaced true
      (clause " GROUP BY " ", " (p.groupBy.map (Draft.column (some p.table)))) := by
    refine clause_spaced (by decide) (by decide) fun item found => ?_
    obtain ⟨column, -, rfl⟩ := List.mem_map.mp found
    exact .column _ _
  refine ((((joins.append tests).append groups).append ?_).append
    (p.orderTail_spaced c part " ORDER BY " (by decide) p.order)).append
    (.optional (fixed_limitOffset _ _ _).beginsPlain .nil)
  split
  · exact .word (by decide) (clausesDraft_spaced _ _)
  · exact .nil

theorem draft_spaced : Spaced true (p.draft c part) := by
  refine Spaced.append ?_ (Spaced.andThen fun columns _ => ?_)
  · split
    · exact .silent rfl .nil
    · exact .nil
  · have items : Spaced false (separated ", " (p.selectItems c part columns)) :=
      Spaced.separated (by decide) (p.selectItems_spaced c part columns)
    refine Spaced.append (Spaced.append (.word (by decide) items) ?_) ?_
    · exact .word (by decide) (.name _ .nil)
    · split
      · exact .word (by decide) ((Spaced.qualified _ _).append (.word (by decide) .nil))
      · exact (p.satelliteJoin_spaced c).append (p.clauses_spaced c part)

variable {p c part}

theorem draft_rawless (rawless : p.raws = []) (known : part.relations ⊆ p.relations) :
    Written .rawless (p.draft c part) :=
  p.draft_written c part (fun _ _ _ _ => trivial) (fun _ => trivial) known (by simp [rawless])

theorem spelled_statement (rawless : p.raws = []) (known : part.relations ⊆ p.relations)
    {s : Statement} (done : Statement.ofDraft c.dialect (p.draft c part) = .ok s) :
    Spelled c.dialect.quoteMark false s.sql.toList :=
  spelled_of_ofDraft done (draft_rawless rawless known) ((p.draft_spaced c part).loosen false)

end Parts

variable {p : Plan} {c : Compiler}

theorem spelled_count (rawless : p.raws = []) {s : Statement} (done : p.count c = .ok s) :
    Spelled c.dialect.quoteMark false s.sql.toList := by
  obtain ⟨inner, compiled, rfl⟩ := map_eq_ok_iff.mp done
  have counted : p.counted.raws = [] := by
    rw [List.eq_nil_iff_forall_not_mem]
    exact fun sql found => absurd (p.raws_counted found) (by simp [rawless])
  have own := spelled_statement counted (List.nil_subset _) compiled
  have aggregate : Identifier.fault? "aggregate" = none := by decide
  have table : Identifier.fault? "aggregate_table" = none := by decide
  have closing : Spelled c.dialect.quoteMark true
      (") AS ".toList ++ (c.dialect.quote "aggregate_table").toList) := by
    rw [quote_of_valid _ _ table]
    exact .word ") AS " (fixed_of_vocabulary (by decide) (by decide)) (by decide)
      (.name table (.nil true))
  have after : Spelled c.dialect.quoteMark true
      (" FROM (".toList ++ (inner.sql.toList ++ (") AS ".toList ++
        (c.dialect.quote "aggregate_table").toList))) :=
    .word " FROM (" (fixed_of_other (by decide)) (by decide) (own.append closing)
  have opening : Spelled c.dialect.quoteMark false
      ("SELECT COUNT(*) AS ".toList ++ ((c.dialect.quote "aggregate").toList ++
        (" FROM (".toList ++ (inner.sql.toList ++ (") AS ".toList ++
          (c.dialect.quote "aggregate_table").toList))))) := by
    rw [quote_of_valid _ _ aggregate, List.cons_append, List.append_assoc]
    exact .word "SELECT COUNT(*) AS " (fixed_of_other (by decide)) (by decide) (.name aggregate after)
  simpa only [String.toList_append, List.append_assoc] using opening

/-- Placeholders for keys and the end of the list that they stand in. -/
private theorem spelled_keys (mark : Char) (keys : List DbValue) :
    Spelled mark true ((", ".intercalate (keys.map fun _ => "?")).toList ++ [')']) := by
  have ending (closed : Bool) : Spelled mark closed [')'] :=
    .word ")" (fixed_of_vocabulary (by decide) (by decide)) (by decide) (.nil false)
  have sign {rest : List Char} (h : Spelled mark false rest) (closed : Bool) :
      Spelled mark closed ("?".toList ++ rest) :=
    .word "?" (fixed_of_other (by decide)) (by decide) h
  induction keys with
  | nil => exact ending true
  | cons key rest ih =>
    cases rest with
    | nil => exact sign (ending false) true
    | cons next others =>
      rw [List.map_cons, List.map_cons, String.intercalate_cons_cons, String.toList_append,
        String.toList_append, List.append_assoc, List.append_assoc]
      have comma : ", " ∈ fixedWords := fixed_of_vocabulary (by decide) (by decide)
      exact sign (.word ", " comma (by decide) (ih.loosen false)) true

theorem spelled_bind (rawless : p.raws = []) {batch : List RelationRequest} {f : FollowUp}
    (known : batch ⊆ p.relations) (done : p.followUp c batch = .ok f) (keys : List DbValue) :
    Spelled c.dialect.quoteMark false (f.bind c.dialect keys).sql.toList := by
  obtain ⟨complete, rfl⟩ := followUp_eq_ok_iff.mp done
  have template := spelled_of_written c.dialect (draft_rawless rawless known) complete
    ((p.draft_spaced c (p.laterPart batch)).loosen false)
  have whole := template.append (spelled_keys c.dialect.quoteMark keys)
  refine Spelled.finished ?_
  rw [String.toList_append, String.toList_append, List.append_assoc]
  exact whole

/-- No name can leave its quotes: in every statement of a plan without raw texts all quotes are closed,
those of names hold valid names, those of literals parts of empty arrays or valid names, and all else is
fixed words and numbers. -/
theorem quotes_names (rawless : p.raws = []) :
    (∀ s, p.unsplit c = .ok s → QuotesNames c.dialect s.sql) ∧
    (∀ forced s, p.baseOnly c forced = .ok s → QuotesNames c.dialect s.sql) ∧
    (∀ s, p.count c = .ok s → QuotesNames c.dialect s.sql) ∧
    (∀ s, p.existence c = .ok s → QuotesNames c.dialect s.sql) ∧
    ∀ compiled, p.compile c = .ok compiled → match compiled.query with
      | .single s => QuotesNames c.dialect s.sql
      | .split s => QuotesNames c.dialect s.base.sql ∧
        ∀ f ∈ s.followUps, ∀ keys, QuotesNames c.dialect (f.bind c.dialect keys).sql := by
  have unsplit : ∀ s, p.unsplit c = .ok s → QuotesNames c.dialect s.sql := fun s done =>
    (spelled_statement rawless (List.Subset.refl _) done).quotesNames
  have probed : p.probed.raws = [] := by
    rw [List.eq_nil_iff_forall_not_mem]
    exact fun sql found => absurd (p.raws_probed found) (by simp [rawless])
  refine ⟨unsplit, fun forced s done => ?_, fun s done => (spelled_count rawless done).quotesNames,
    fun s done => (spelled_statement probed (List.nil_subset _) done).quotesNames,
    fun compiled done => ?_⟩
  · exact (spelled_statement rawless (List.nil_subset _) done).quotesNames
  · obtain ⟨-, -, query⟩ := compile_eq_ok_iff.mp done
    split at query
    · obtain ⟨s, split, same⟩ := query
      obtain ⟨first, later, -⟩ := split_eq_ok_iff.mp split
      rw [same]
      refine ⟨(spelled_statement rawless (p.firstBatch_subset c.config) first).quotesNames, ?_⟩
      intro f found keys
      obtain ⟨batch, listed, written⟩ := exists_of_forall₂ later.flip found
      exact (spelled_bind rawless (p.laterBatch_subset listed) written keys).quotesNames
    · obtain ⟨s, single, same⟩ := query
      rw [same]
      exact unsplit s single

/-- Albums and their photos, on a server that has no aggregate for JSON arrays. -/
def gallery : Compiler :=
  { dialect := .mysql (some ⟨5, 6, 0⟩)
    registry := [("Photo", { type := "Photo", table := "photos", columns := ["title"] })]
    memo := []
    config := {} }

def album : Plan :=
  { entity :=
      { type := "Album", table := "albums", columns := ["name"]
        relations := [("photos", .hasMany "Photo" "album" "id")] }
    relations := [{ name := "photos", kind := .collection }]
    filter := ({} : Filter).and (.compare "owner" .equal (.text "`; DROP TABLE albums; --"))
    order := [⟨"name", .ascending⟩]
    limit := some 10 }

theorem quotes_names_album :
    album.raws = [] ∧ ∃ s, album.unsplit gallery = .ok s ∧ QuotesNames gallery.dialect s.sql := by
  have rawless : album.raws = [] := by decide
  have complete : (album.unsplitDraft gallery).failure? = none := by decide
  have written := (ofDraft_eq_ok_iff gallery.dialect (album.unsplitDraft gallery) _).mpr ⟨complete, rfl⟩
  exact ⟨rawless, _, written, (quotes_names rawless).1 _ written⟩

end Plan
end EagerLoad
