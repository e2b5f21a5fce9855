import EagerLoad.Proofs.Plan.Parts
import EagerLoad.Proofs.Relation.Written

/-! # What statements are written from

Apart from the raw texts of its filters the draft of a plan is written from the vocabulary. -/
namespace EagerLoad

open Sql Sql.Draft

variable {allowed : Allowed}

namespace Plan

/-- The raw texts of a plan at any depth: those of its filter and of its tests on groups, and those
of the filters of its relations, counts and aggregates. -/
def raws (p : Plan) : List String :=
  p.filter.raws ++ p.having.raws ++ p.relations.flatMap (fun r => rawsOf r.filter) ++
    p.counts.flatMap (fun c => rawsOf c.filter) ++ p.aggregates.flatMap fun a => rawsOf a.filter

/-- Counting and probing write no other raw texts than the plan. -/
theorem raws_counted (p : Plan) : p.counted.raws ⊆ p.raws := by
  intro sql found
  unfold counted at found
  simp only [raws] at found ⊢
  split at found
  · simp only [List.flatMap_nil, List.append_nil, List.mem_append] at found ⊢
    exact .inl (.inl (.inl found))
  · simp only [List.flatMap_nil, List.append_nil, List.mem_append] at found ⊢
    exact found.imp_left fun rest => rest.imp_left .inl

theorem raws_probed (p : Plan) : p.probed.raws ⊆ p.raws := by
  intro sql found
  simp only [raws, probed, List.flatMap_nil, List.append_nil, List.mem_append] at found ⊢
  exact .inl (.inl (.inl found))

section Parts

variable (p : Plan) (c : Compiler) (part : Part)

section Subqueries

variable (looked : (p.context c).Consults allowed)
include looked

theorem selectItems_written (columns : Columns)
    (relations : ∀ r ∈ part.relations, ∀ sql ∈ rawsOf r.filter, allowed.raw sql)
    (counts : ∀ c ∈ p.counts, ∀ sql ∈ rawsOf c.filter, allowed.raw sql)
    (aggregates : ∀ a ∈ p.aggregates, ∀ sql ∈ rawsOf a.filter, allowed.raw sql) :
    ∀ item ∈ p.selectItems c part columns, Written allowed item := by
  have asked : ∀ item ∈ p.askedItems c part columns, Written allowed item := by
    intro item found
    obtain found | found | ⟨-, found | found⟩ := (p.mem_askedItems c part columns item).mp found
    · exact columns.items_written _ _ item found
    · obtain ⟨r, known, rfl⟩ := List.mem_map.mp found
      exact Subquery.relation_written _ _ _ looked r (relations r known)
    · obtain ⟨count, known, rfl⟩ := List.mem_map.mp found
      exact Subquery.count_written _ _ _ looked count (counts count known)
    · obtain ⟨aggregate, known, rfl⟩ := List.mem_map.mp found
      exact Subquery.aggregate_written _ _ _ looked aggregate (aggregates aggregate known)
  intro item found
  rw [selectItems_eq] at found
  split at found
  · obtain rfl := List.mem_singleton.mp found
    exact Written.qualified _ _
  · exact asked item found

omit looked in
theorem satelliteJoin_written : Written allowed (p.satelliteJoin c) := by
  unfold satelliteJoin
  split
  · exact Localization.join_written _ _ _ _ _
  · exact .nil

omit looked in
theorem joinDraft_written (table : String) (j : Join) : Written allowed (joinDraft table j) := by
  have kind : j.kind.sql ∈ vocabulary := by cases j.kind <;> decide
  refine Written.append (Written.append (Written.append ?_ (Written.column _ _)) ?_)
    (Written.column _ _)
  · exact .word (by decide) (.word kind (.word (by decide) (.name _ (.word (by decide) .nil))))
  · exact .word (by decide) (.word (Comparison.sql_known _) (.word (by decide) .nil))

theorem searchDraft_written (s : Search) : Written allowed (p.searchDraft c s) := by
  unfold searchDraft
  generalize groupSearch p.entity s.columns = grouped
  obtain ⟨own, related⟩ := grouped
  refine Written.append (.word (by decide) (Written.separated (by decide) fun draft found => ?_))
    (.word (by decide) .nil)
  obtain found | found := List.mem_append.mp found
  · refine Subquery.searchTerms_written _ _ _ (fun column known => ?_) draft found
    obtain ⟨name, _, rfl⟩ := List.mem_map.mp known
    exact Qualifier.column_written _ _
  · obtain ⟨group, _, rfl⟩ := List.mem_map.mp found
    exact Subquery.search_written _ _ _ looked _ _ _

theorem tests_written (h : ∀ sql ∈ p.filter.raws, allowed.raw sql) :
    ∀ test ∈ p.tests c, Written allowed test := by
  intro test found
  unfold tests at found
  obtain found | found := List.mem_append.mp found
  · obtain found | found := List.mem_append.mp found
    · split at found
      · obtain rfl := List.mem_singleton.mp found
        exact (Written.qualified _ _).append (.word (by decide) .nil)
      · exact absurd found (by simp)
    · split at found
      · obtain rfl := List.mem_singleton.mp found
        exact (clausesDraft_written _ _ h "(" (by decide)).append (.word (by decide) .nil)
      · exact absurd found (by simp)
  · split at found
    · split at found
      · obtain rfl := List.mem_singleton.mp found
        exact p.searchDraft_written c looked _
      · exact absurd found (by simp)
    · exact absurd found (by simp)

omit looked in
theorem clause_written {keyword separator : String} {items : List Draft}
    (opening : keyword ∈ vocabulary) (between : separator ∈ vocabulary)
    (h : ∀ item ∈ items, Written allowed item) : Written allowed (clause keyword separator items) := by
  unfold clause
  split
  · exact .nil
  · exact .word opening (Written.separated between h)

omit looked in
theorem orderTail_written (separator : String) (known : separator ∈ vocabulary)
    (terms : List OrderTerm) : Written allowed (p.orderTail c part separator terms) := by
  induction terms generalizing separator with
  | nil => exact .nil
  | cons term rest ih =>
    have next := ih ", " (by decide)
    unfold orderTail
    split
    · exact Written.append (.word known (term.draft_written _)) next
    · split
      · exact Written.append (.word known (term.draft_written _)) next
      · exact .silent rfl (ih separator known)

theorem clauses_written (filter : ∀ sql ∈ p.filter.raws, allowed.raw sql)
    (having : ∀ sql ∈ p.having.raws, allowed.raw sql) : Written allowed (p.clauses c part) := by
  have joins : Written allowed (p.joins.flatMap (joinDraft p.table)) :=
    Written.flatMap fun j _ => joinDraft_written p.table j
  have tests : Written allowed (clause " WHERE " " AND " (p.tests c)) :=
    clause_written (by decide) (by decide) (p.tests_written c looked filter)
  have groups : Written allowed
      (clause " GROUP BY " ", " (p.groupBy.map (Sql.Draft.column (some p.table)))) := by
    refine clause_written (by decide) (by decide) fun item found => ?_
    obtain ⟨column, _, rfl⟩ := List.mem_map.mp found
    exact Written.column _ _
  have order : Written allowed (p.orderTail c part " ORDER BY " p.order) :=
    p.orderTail_written c part " ORDER BY " (by decide) p.order
  refine ((((joins.append tests).append groups).append ?_).append order).append
    (.limit c.dialect _ _ .nil)
  split
  · exact clausesDraft_written _ _ having " HAVING " (by decide)
  · exact .nil

end Subqueries

/-- The draft of a part whose raw texts are allowed is written from the vocabulary. -/
theorem draft_written (looked : (p.context c).Consults allowed)
    (own : p.locale.isSome = true → allowed.consult p.entity.type (p.localization? c))
    (known : part.relations ⊆ p.relations) (h : ∀ sql ∈ p.raws, allowed.raw sql) :
    Written allowed (p.draft c part) := by
  simp only [raws, List.mem_append, List.mem_flatMap] at h
  have relations : ∀ r ∈ part.relations, ∀ sql ∈ rawsOf r.filter, allowed.raw sql :=
    fun r found sql raw => h sql (.inl (.inl (.inr ⟨r, known found, raw⟩)))
  have counts : ∀ c ∈ p.counts, ∀ sql ∈ rawsOf c.filter, allowed.raw sql :=
    fun count found sql raw => h sql (.inl (.inr ⟨count, found, raw⟩))
  have aggregates : ∀ a ∈ p.aggregates, ∀ sql ∈ rawsOf a.filter, allowed.raw sql :=
    fun aggregate found sql raw => h sql (.inr ⟨aggregate, found, raw⟩)
  refine Written.append ?_ (Written.andThen fun columns _ => ?_)
  · split
    · rename_i wanted
      exact .consult (own wanted) .nil
    · exact .nil
  · have items : Written allowed (separated ", " (p.selectItems c part columns)) :=
      Written.separated (by decide)
        (p.selectItems_written c part looked columns relations counts aggregates)
    refine Written.append (Written.append (.word (by decide) items) ?_) ?_
    · exact .word (by decide) (.name _ .nil)
    · split
      · exact Written.append (.word (by decide) (Written.qualified _ _)) (.word (by decide) .nil)
      · exact (p.satelliteJoin_written c).append (p.clauses_written c part looked
          (fun sql raw => h sql (.inl (.inl (.inl (.inl raw)))))
          (fun sql raw => h sql (.inl (.inl (.inl (.inr raw))))))

end Parts

end Plan
end EagerLoad
