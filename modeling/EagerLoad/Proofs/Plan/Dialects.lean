import EagerLoad.Proofs.Plan.Split
import EagerLoad.Proofs.Plan.Values
import EagerLoad.Proofs.Sql.Wordless

/-! # Dialects change the text only

A plan means the same on every dialect: its statements carry the same values in the same order, and its
rows have the same layout. Where the related rows are aggregated the drafts differ in more than text, as
some dialects order the rows inside the aggregate and others in a derived table. These are compared by the
values that they bind. Everything else is compared step by step. -/
namespace EagerLoad

open Sql Sql.Draft

def Context.speaking (ctx : Context) (d : Dialect) : Context := { ctx with dialect := d }

/-- The same compiler for another dialect. -/
def Compiler.speaking (c : Compiler) (d : Dialect) : Compiler := { c with dialect := d }

def FollowUp.textless (f : FollowUp) : FollowUp := { f with template := f.template.textless }

def Split.textless (s : Split) : Split :=
  { s with base := s.base.textless, followUps := s.followUps.map FollowUp.textless }

def CompiledQuery.textless : CompiledQuery → CompiledQuery
  | single s => single s.textless
  | split s => split s.textless

/-- A compiled plan without the text of its statements. -/
def CompiledPlan.textless (c : CompiledPlan) : CompiledPlan := { c with query := c.query.textless }

theorem wordless_source (ctx : Context) (base : Entity) (name : String) (localized : Bool)
    {next other : Source → Draft} (same : ∀ s, (next s).wordless = (other s).wordless) :
    (Source.andThen ctx base name localized next).wordless =
      (Source.andThen ctx base name localized other).wordless := by
  refine wordless_andThen_congr _ fun s => ?_
  rw [wordless_append, wordless_append, same]

namespace Subquery

variable (ctx : Context) (d : Dialect) (base : Entity) (baseAlias : String)

theorem wordless_aggregate (a : AggregateRequest) :
    (aggregate (ctx.speaking d) base baseAlias a).wordless =
      (aggregate ctx base baseAlias a).wordless := by
  unfold aggregate
  split
  · rfl
  · exact wordless_source ctx base a.relation false fun s => by simp [aggregateCall, Context.speaking]

theorem wordless_searchTerms (e : Dialect) (pattern : String) (columns : List Draft) :
    (searchTerms d pattern columns).map wordless = (searchTerms e pattern columns).map wordless := by
  simp [searchTerms]

theorem wordless_search (relation : String) (columns : List String) (pattern : String) :
    (search (ctx.speaking d) base baseAlias relation columns pattern).wordless =
      (search ctx base baseAlias relation columns pattern).wordless := by
  refine wordless_source ctx base relation false fun s => ?_
  simp [wordless_separated, wordless_searchTerms d ctx.dialect, Context.speaking]

end Subquery

namespace Plan

variable (p : Plan) (c : Compiler) (d : Dialect) (part : Part)

theorem wordless_selectItems (columns : Columns) (plain : part.relations = []) :
    (p.selectItems (c.speaking d) part columns).map wordless =
      (p.selectItems c part columns).map wordless := by
  have aggregates : (p.aggregates.map
        (Subquery.aggregate ((p.context c).speaking d) p.entity p.table)).map wordless =
      (p.aggregates.map (Subquery.aggregate (p.context c) p.entity p.table)).map wordless := by
    rw [List.map_map, List.map_map]
    exact List.map_congr_left fun a _ => Subquery.wordless_aggregate _ d _ _ a
  have asked : (p.askedItems (c.speaking d) part columns).map wordless =
      (p.askedItems c part columns).map wordless := by
    unfold askedItems
    rw [plain]
    split
    · simp only [List.map_append, List.map_nil, List.append_nil]
      congr 2
    · rfl
  have none : (p.askedItems (c.speaking d) part columns).isEmpty =
      (p.askedItems c part columns).isEmpty := by
    rw [← List.isEmpty_map (f := wordless), asked, List.isEmpty_map]
  rw [selectItems_eq, selectItems_eq, none]
  split
  · rfl
  · exact asked

theorem wordless_searchDraft (s : Search) :
    (p.searchDraft (c.speaking d) s).wordless = (p.searchDraft c s).wordless := by
  have related (groups : List (String × List String)) :
      (groups.map fun group => Subquery.search ((p.context c).speaking d) p.entity p.table group.1
          group.2 s.pattern).map wordless =
        (groups.map fun group => Subquery.search (p.context c) p.entity p.table group.1 group.2
          s.pattern).map wordless := by
    rw [List.map_map, List.map_map]
    exact List.map_congr_left fun group _ => Subquery.wordless_search _ d _ _ _ _ _
  have own := Subquery.wordless_searchTerms d c.dialect s.pattern
    ((groupSearch p.entity s.columns).1.map (p.qualifier c).column)
  unfold searchDraft
  simp only [wordless_text, wordless_append, wordless_separated, List.map_append]
  congr 2
  exact congrArg₂ (· ++ ·) own (related _)

theorem wordless_tests :
    (p.tests (c.speaking d)).map wordless = (p.tests c).map wordless := by
  unfold tests
  simp only [List.map_append]
  congr 1
  cases p.search with
  | none => rfl
  | some s =>
    dsimp only
    split
    · rw [List.map_singleton, List.map_singleton, wordless_searchDraft]
    · rfl

theorem wordless_clause (keyword separator : String) {items others : List Draft}
    (same : items.map wordless = others.map wordless) :
    (clause keyword separator items).wordless = (clause keyword separator others).wordless := by
  have none : items.isEmpty = others.isEmpty := by
    rw [← List.isEmpty_map (f := wordless), same, List.isEmpty_map]
  unfold clause
  rw [none]
  split
  · rfl
  · rw [wordless_text, wordless_text, wordless_separated, wordless_separated, same]

theorem orderTail_speaking (separator : String) (terms : List OrderTerm) :
    p.orderTail (c.speaking d) part separator terms = p.orderTail c part separator terms := by
  induction terms generalizing separator with
  | nil => rfl
  | cons term rest ih =>
    rw [orderTail, orderTail, ih, ih]
    rfl

theorem wordless_clauses : (p.clauses (c.speaking d) part).wordless = (p.clauses c part).wordless := by
  unfold clauses
  simp only [wordless_append, orderTail_speaking,
    wordless_clause " WHERE " " AND " (p.wordless_tests c d)]
  rfl

/-- Without relations a part is written with the same names and values on every dialect. -/
theorem wordless_draft (plain : part.relations = []) :
    (p.draft (c.speaking d) part).wordless = (p.draft c part).wordless := by
  unfold draft
  rw [wordless_append, wordless_append]
  congr 1
  refine wordless_andThen_congr _ fun columns => ?_
  simp only [wordless_append, wordless_text, wordless_separated,
    wordless_selectItems p c d part columns plain]
  congr 1
  split
  · rfl
  · rw [wordless_append, wordless_append, wordless_clauses]
    rfl

/-- The values of a part do not depend on the dialect. -/
theorem values_speaking : p.values (c.speaking d) part = p.values c part := rfl

variable {p c d part}

/-- Two drafts of one part bind the same values if both can be completed. -/
theorem draft_values_speaking (complete : (p.draft c part).failure? = none)
    (other : (p.draft (c.speaking d) part).failure? = none) :
    (p.draft c part).values = (p.draft (c.speaking d) part).values := by
  rw [p.values_draft c part complete, p.values_draft (c.speaking d) part other, values_speaking]

theorem ofDraft_speaking {s t : Statement}
    (written : Statement.ofDraft c.dialect (p.draft c part) = .ok s)
    (other : Statement.ofDraft d (p.draft (c.speaking d) part) = .ok t) : s.textless = t.textless := by
  obtain ⟨complete, rfl⟩ := (ofDraft_eq_ok_iff _ _ _).mp written
  obtain ⟨completed, rfl⟩ := (ofDraft_eq_ok_iff _ _ _).mp other
  exact ofFragment_textless _ _ (fragment_textless _ _ (draft_values_speaking complete completed))

theorem followUp_speaking {batch : List RelationRequest} {f g : FollowUp}
    (written : p.followUp c batch = .ok f) (other : p.followUp (c.speaking d) batch = .ok g) :
    f.textless = g.textless := by
  obtain ⟨complete, rfl⟩ := followUp_eq_ok_iff.mp written
  obtain ⟨completed, rfl⟩ := followUp_eq_ok_iff.mp other
  exact congrArg (FollowUp.mk _)
    (fragment_textless _ _ (draft_values_speaking complete completed))

/-- Both splits have a follow-up for every later batch, with its relations and its values. -/
theorem split_speaking {s t : Split} (written : p.split c = .ok s)
    (other : p.split (c.speaking d) = .ok t) : s.textless = t.textless := by
  obtain ⟨base, followUps, key⟩ := split_eq_ok_iff.mp written
  obtain ⟨otherBase, otherFollowUps, otherKey⟩ := split_eq_ok_iff.mp other
  have all : s.followUps.map FollowUp.textless = t.followUps.map FollowUp.textless := by
    rw [map_eq_map_iff_forall₂]
    exact (forall₂_of_common followUps otherFollowUps).imp fun f g ⟨_, one, another⟩ =>
      followUp_speaking one another
  rw [Split.textless, Split.textless, ofDraft_speaking base otherBase, all, key, otherKey]

theorem compiled_speaking {x y : CompiledPlan} (written : p.compile c = .ok x)
    (other : p.compile (c.speaking d) = .ok y) : x.textless = y.textless := by
  obtain ⟨layout, subqueries, query⟩ := compile_eq_ok_iff.mp written
  obtain ⟨otherLayout, otherSubqueries, otherQuery⟩ := compile_eq_ok_iff.mp other
  have shaped : x.layout = y.layout := Except.ok.inj (layout.symm.trans otherLayout)
  have asked : x.query.textless = y.query.textless := by
    by_cases cut : p.isSplit c.config
    · rw [if_pos cut] at query
      rw [if_pos (show p.isSplit (c.speaking d).config from cut)] at otherQuery
      obtain ⟨s, split, same⟩ := query
      obtain ⟨t, otherSplit, otherSame⟩ := otherQuery
      rw [same, otherSame]
      exact congrArg CompiledQuery.split (split_speaking split otherSplit)
    · rw [if_neg cut] at query
      rw [if_neg (show ¬p.isSplit (c.speaking d).config from cut)] at otherQuery
      obtain ⟨s, single, same⟩ := query
      obtain ⟨t, otherSingle, otherSame⟩ := otherQuery
      rw [same, otherSame]
      exact congrArg CompiledQuery.single (ofDraft_speaking single otherSingle)
  rw [CompiledPlan.textless, CompiledPlan.textless, shaped, asked, subqueries, otherSubqueries]

/-- What stands around the counted statement is text. -/
theorem count_textless (p : Plan) (c : Compiler) :
    (p.count c).map Statement.textless =
      (Statement.ofDraft c.dialect (p.countDraft c)).map Statement.textless := by
  unfold count
  cases Statement.ofDraft c.dialect (p.countDraft c) <;> rfl

/-- The dialect changes nothing but the text of statements. Two compilations of a plan have the same
layout and are split alike, and each statement and follow-up binds the same values. Statements without
relations, and counts, even fail alike. -/
theorem compile_speaking (p : Plan) (c : Compiler) (d : Dialect) :
    (∀ x y, p.compile c = .ok x → p.compile (c.speaking d) = .ok y → x.textless = y.textless) ∧
    (p.count c).map Statement.textless = (p.count (c.speaking d)).map Statement.textless ∧
    (p.existence c).map Statement.textless = (p.existence (c.speaking d)).map Statement.textless ∧
    ∀ forced, (p.baseOnly c forced).map Statement.textless =
      (p.baseOnly (c.speaking d) forced).map Statement.textless := by
  have plain (p : Plan) (part : Part) (none : part.relations = []) :
      (Statement.ofDraft c.dialect (p.draft c part)).map Statement.textless =
        (Statement.ofDraft d (p.draft (c.speaking d) part)).map Statement.textless :=
    ofDraft_wordless _ _ (p.wordless_draft c d part none).symm
  refine ⟨fun x y written other => compiled_speaking written other, ?_, plain _ _ rfl,
    fun forced => plain _ _ rfl⟩
  rw [count_textless, count_textless]
  exact plain _ _ rfl

namespace Atlas

/-- Landmarks have titles in every language, and pictures are kept of cities among others. -/
def compiler : Compiler :=
  { dialect := .postgresql
    registry :=
      [("Landmark",
        { type := "Landmark", table := "landmarks", columns := ["city", "height"]
          localized := some (.ofFields ["title"]) }),
        ("Picture", { type := "Picture", table := "pictures", columns := ["url"] })]
    memo := []
    config := { maxRelations := 1 } }

/-- The cities of a country with their landmarks, the highest first, and with their pictures, in French. -/
def cities : Plan :=
  { entity :=
      { type := "City", table := "cities", columns := ["country"]
        relations :=
          [("landmarks", .hasMany "Landmark" "city" "id"),
            ("pictures", .morphMany "Picture" ⟨"subject_type", "subject_id", "id"⟩)] }
    relations :=
      [{ name := "landmarks", kind := .collection
         filter := some { (({} : Filter).and (.compare "height" .greaterThan (.int32 100))) with
            order := [⟨"height", .descending⟩] } },
        { name := "pictures", kind := .collection }]
    filter := ({} : Filter).and (.compare "country" .equal (.text "fr"))
    locale := some "fr" }

/-- The same compiler for a server whose aggregate takes no order. -/
def unordered : Compiler := compiler.speaking (.mysql (some ⟨8, 0, 34⟩))

theorem exists_compiled {c : Compiler} (written : (cities.compile c).toOption.isSome = true) :
    ∃ x, cities.compile c = .ok x := by
  cases compiled : cities.compile c with
  | ok x => exact ⟨x, rfl⟩
  | error e => exact absurd written (by simp [compiled, Except.toOption])

end Atlas

open Atlas in
/-- The landmarks are ordered inside the aggregate for one server and in a derived table for the other. -/
theorem compile_speaking_cities :
    ∃ x y, cities.compile compiler = .ok x ∧ cities.compile unordered = .ok y ∧
      x.textless = y.textless := by
  obtain ⟨x, one⟩ := exists_compiled (c := compiler) (by decide +kernel)
  obtain ⟨y, other⟩ := exists_compiled (c := unordered) (by decide +kernel)
  exact ⟨x, y, one, other, (compile_speaking cities compiler _).1 x y one other⟩

end Plan
end EagerLoad
