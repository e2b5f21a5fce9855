import EagerLoad.Proofs.Plan.Having
import EagerLoad.Proofs.Plan.Paged
import EagerLoad.Proofs.Plan.Values
import EagerLoad.Proofs.Sql.Qualified

/-! # The text that the statements of a plan share

The statement of a whole plan, its base rows alone, the probe for a row and the statement that a count counts
over select different things. From the tables to the tests on groups they are the same text with the same
values, and only order and limit stand after it: a count is over the rows that the other statements read. -/
namespace EagerLoad

open Sql Sql.Draft

/-- A select list, as it is written. -/
def Fragment.selecting (items : List Fragment) : Fragment :=
  ⟨"SELECT " ++ ", ".intercalate (items.map Fragment.sql), items.flatMap Fragment.bindings⟩

/-- That a statement is a select list, then a shared text, then an ending without values. -/
structure Statement.Reads (d : Dialect) (items : List Fragment) (shared : Fragment) (ending : String)
    (s : Statement) : Prop where
  written : s = .ofFragment d (((Fragment.selecting items).append shared).append ⟨ending, []⟩)
  /-- Without numbers for placeholders the text is just that. -/
  plain : d.numbersPlaceholders = false →
    s.sql = (Fragment.selecting items).sql ++ shared.sql ++ ending
  /-- Numbers are all that is different with them, and the ending has none. -/
  numbered : ∃ first second, s.sql.toList = first ++ second ++ ending.toList ∧
    Numbered (Fragment.selecting items).sql.toList first ∧ Numbered shared.sql.toList second
  bindings : s.bindings = items.flatMap Fragment.bindings ++ shared.bindings

theorem Statement.reads_of_written {d : Dialect} {items : List Fragment} {shared : Fragment}
    {ending : String} (free : '?' ∉ ending.toList) : Reads d items shared ending
      (.ofFragment d (((Fragment.selecting items).append shared).append ⟨ending, []⟩)) where
  written := rfl
  plain unnumbered := by simp [ofFragment, unnumbered, Fragment.append]
  numbered := by
    have numbers := Sql.Numbered.ofFragment d
      (((Fragment.selecting items).append shared).append ⟨ending, []⟩)
    simp only [Fragment.append, String.toList_append] at numbers
    obtain ⟨front, last, whole, before, ends⟩ := numbers.append_inv
    obtain ⟨first, second, rfl, selected, same⟩ := before.append_inv
    rw [ends.eq_of_notMem free] at whole
    exact ⟨first, second, whole, selected, same⟩
  bindings := by simp [ofFragment, Fragment.append, Fragment.selecting]

theorem Fragment.append_assoc (f g h : Fragment) : (f.append g).append h = f.append (g.append h) := by
  simp only [append, String.append_assoc, List.append_assoc]

theorem Fragment.select_eq (d : Dialect) (table : String) (items : List Fragment) (rest : Draft) :
    select d table items (rest.fragment d) =
      (selecting items).append (Draft.fragment d ([.text " FROM ", .name table] ++ rest)) := by
  rw [fragment_append, ← append_assoc, select]
  simp [append, selecting, Draft.fragment, Step.sql, Step.bindings, String.append_assoc]

namespace Plan

/-- What decides which rows a statement reads: the tables, the tests of rows, the groups and the tests of
groups. -/
def scope (p : Plan) (c : Compiler) : Draft :=
  [.text " FROM ", .name p.table] ++ p.satelliteJoin c ++ p.joins.flatMap (joinDraft p.table) ++
    clause " WHERE " " AND " (p.tests c) ++
    clause " GROUP BY " ", " (p.groupBy.map (Sql.Draft.column (some p.table))) ++
    if p.having.hasConditions then .text " HAVING " :: p.having.conditions {} else []

/-- The order and the limit that the statement of a part ends with. -/
def ending (p : Plan) (c : Compiler) (part : Part) : Draft :=
  p.orderTail c part " ORDER BY " p.order ++ [.text (c.dialect.limitOffset (p.rowLimit c part) p.offset)]

/-- That a statement selects some items by the scope of a plan. -/
abbrev ReadsRows (p : Plan) (c : Compiler) (items : List Fragment) (ending : String) (s : Statement) : Prop :=
  Statement.Reads c.dialect items ((p.scope c).fragment c.dialect) ending s

section Ending

variable {p : Plan} {c : Compiler} {part : Part}

theorem column_plain (d : Dialect) (qualifier : Option String) (name : String) :
    ∀ step ∈ Draft.column qualifier name, (∃ name, step = .name name) ∨ '?' ∉ (step.sql d).toList := by
  have qualified (table column : String) : ∀ step ∈ Draft.qualified table column,
      (∃ name, step = .name name) ∨ '?' ∉ (step.sql d).toList := by
    simp [Draft.qualified, Step.sql]
  unfold Draft.column
  split
  · exact qualified _ _
  · exact qualified _ _
  · simp

theorem orderTail_plain (separator : String) (free : '?' ∉ separator.toList) (terms : List OrderTerm) :
    ∀ step ∈ p.orderTail c part separator terms,
      (∃ name, step = .name name) ∨ '?' ∉ (step.sql c.dialect).toList := by
  have term (q : Qualifier) (t : OrderTerm) : ∀ step ∈ t.draft q,
      (∃ name, step = .name name) ∨ '?' ∉ (step.sql c.dialect).toList := by
    refine List.forall_mem_append.mpr ⟨column_plain _ _ _, ?_⟩
    cases t.direction <;> simp [Step.sql, Direction.sql]
  induction terms generalizing separator with
  | nil => exact List.forall_mem_nil _
  | cons t rest ih =>
    have next := ih ", " (by decide)
    unfold orderTail
    split
    · exact List.forall_mem_append.mpr ⟨List.forall_mem_cons.mpr ⟨.inr free, term _ t⟩, next⟩
    · split
      · exact List.forall_mem_append.mpr ⟨List.forall_mem_cons.mpr ⟨.inr free, term _ t⟩, next⟩
      · exact List.forall_mem_cons.mpr ⟨.inr List.not_mem_nil, ih separator free⟩

theorem values_ending : (p.ending c part).values = [] := by
  rw [ending, values_append, values_orderTail]
  rfl

theorem question_notMem_ending (complete : (p.ending c part).failure? = none) :
    '?' ∉ (p.ending c part).text c.dialect := by
  refine question_notMem complete (List.forall_mem_append.mpr ⟨orderTail_plain _ (by decide) _, ?_⟩)
  rw [List.forall_mem_singleton]
  exact .inr fun sign => absurd (limitOffset_letters _ _ _ '?' sign) (by decide)

end Ending

variable {p : Plan} {c : Compiler}

theorem scope_append_ending (part : Part) : p.scope c ++ p.ending c part =
    [.text " FROM ", .name p.table] ++ (p.satelliteJoin c ++ p.clauses c part) := by
  simp only [scope, ending, clauses, List.append_assoc]

theorem reads_of_ofDraft {part : Part} {s : Statement} (whole : part.byKeys = false)
    (written : Statement.ofDraft c.dialect (p.draft c part) = .ok s) :
    p.ReadsRows c (p.selection c part) ((p.ending c part).fragment c.dialect).sql s := by
  obtain ⟨complete, rfl⟩ := (ofDraft_eq_ok_iff _ _ _).mp written
  obtain ⟨-, -, -, table, rest⟩ := (p.draft_complete_iff c part).mp complete
  rw [whole, if_neg Bool.false_ne_true] at rest
  have all : (p.scope c ++ p.ending c part).failure? = none := by
    rw [scope_append_ending, failure?_append]
    exact ⟨(failure?_cons _ _).mpr ⟨rfl, (failure?_cons _ _).mpr ⟨table, rfl⟩⟩, rest⟩
  have last : (p.ending c part).fragment c.dialect =
      ⟨((p.ending c part).fragment c.dialect).sql, []⟩ := by
    rw [← values_ending, ← bindings_fragment]
  rw [p.fragment_draft c complete, whole, if_neg Bool.false_ne_true, Fragment.select_eq, ← scope_append_ending,
    fragment_append, ← Fragment.append_assoc, last]
  exact Statement.reads_of_written (question_notMem_ending ((failure?_append _ _).mp all).2)

theorem scope_probed : p.probed.scope c = p.scope c := rfl

theorem scope_counted : p.counted.scope c = p.scope c := by
  unfold counted
  dsimp only
  split <;> rfl

theorem sql_ending (unordered : p.order = []) (part : Part) :
    ((p.ending c part).fragment c.dialect).sql = c.dialect.limitOffset (p.rowLimit c part) p.offset := by
  rw [ending, unordered, orderTail, List.nil_append]
  simp [Draft.fragment, Step.sql]

theorem ending_probed : ((p.probed.ending c (basePart [])).fragment c.dialect).sql =
    " LIMIT " ++ toString (c.config.reach 1) := by
  have least : p.probed.rowLimit c (basePart []) = some (c.config.reach 1) := by
    unfold rowLimit Config.reach
    cases most : c.config.maxLimit <;> simp [probed, basePart]
  rw [sql_ending rfl, least]
  rfl

theorem ending_counted : ((p.counted.ending c countedPart).fragment c.dialect).sql = "" := by
  have bare : p.counted.order = [] ∧ p.counted.limit = none ∧ p.counted.offset = none := by
    unfold counted
    dsimp only
    split <;> exact ⟨rfl, rfl, rfl⟩
  obtain ⟨unordered, unlimited, first⟩ := bare
  rw [sql_ending unordered, rowLimit, unlimited, first]
  rfl

/-- Where the statements of a plan have their common text. -/
structure SharesScope (p : Plan) (c : Compiler) : Prop where
  unsplit : ∀ s, p.unsplit c = .ok s →
    p.ReadsRows c (p.selection c p.wholePart) ((p.ending c p.wholePart).fragment c.dialect).sql s
  baseOnly : ∀ keys s, p.baseOnly c keys = .ok s →
    p.ReadsRows c (p.selection c (basePart keys)) ((p.ending c (basePart keys)).fragment c.dialect).sql s
  existence : ∀ s, p.existence c = .ok s →
    p.ReadsRows c (p.probed.selection c (basePart [])) (" LIMIT " ++ toString (c.config.reach 1)) s
  count : ∀ s, p.count c = .ok s → ∃ inner,
    s = ⟨"SELECT COUNT(*) AS " ++ c.dialect.quote "aggregate" ++ " FROM (" ++ inner.sql ++ ") AS " ++
      c.dialect.quote "aggregate_table", inner.bindings⟩ ∧
    p.ReadsRows c (p.counted.selection c countedPart) "" inner

theorem shares_scope (p : Plan) (c : Compiler) : p.SharesScope c where
  unsplit s written := reads_of_ofDraft rfl written
  baseOnly keys s written := reads_of_ofDraft rfl written
  existence s written := by
    have reads := reads_of_ofDraft (p := p.probed) rfl written
    rwa [ReadsRows, scope_probed, ending_probed] at reads
  count s written := by
    obtain ⟨inner, made, rfl⟩ := map_eq_ok_iff.mp written
    have reads := @reads_of_ofDraft p.counted c countedPart inner rfl made
    rw [ReadsRows, scope_counted, ending_counted] at reads
    exact ⟨inner, rfl, reads⟩

end Plan

namespace Newsstand

def compiler : Compiler :=
  { dialect := .postgresql, registry := [], memo := [], config := { maxLimit := some 50 } }

/-- The publishers of more than two cheap magazines, from the third page on. -/
def publishers : Plan :=
  { entity := { type := "Magazine", table := "magazines", columns := ["publisher", "price"] }
    columns := .columns ["publisher"]
    filter := ({} : Filter).and (.compare "price" .lessThan (.int32 5))
    groupBy := ["publisher"]
    having := ({} : Filter).and (.raw "COUNT(*) > ?" [.int32 2])
    order := [⟨"publisher", .ascending⟩]
    limit := some 20
    offset := some 40 }

/-- What their statements share, before placeholders are numbered. -/
def shared : Fragment :=
  ⟨" FROM \x22magazines\x22 WHERE (\x22magazines\x22.\x22price\x22 < ?) GROUP BY \x22magazines\x22.\x22publisher\x22 HAVING (COUNT(*) > ?)",
    [.int32 5, .int32 2]⟩

end Newsstand

open Newsstand in
theorem shares_scope_publishers :
    (publishers.scope compiler).fragment .postgresql = shared ∧ ∃ rows total inner,
      publishers.unsplit compiler = .ok rows ∧ publishers.count compiler = .ok total ∧
      publishers.ReadsRows compiler (publishers.selection compiler publishers.wholePart)
        ((publishers.ending compiler publishers.wholePart).fragment .postgresql).sql rows ∧
      publishers.ReadsRows compiler (publishers.counted.selection compiler Plan.countedPart) "" inner ∧
      total.bindings = inner.bindings := by
  have complete : (publishers.unsplitDraft compiler).failure? = none := by decide
  have whole : (publishers.countDraft compiler).failure? = none := by decide
  have shown : publishers.unsplit compiler = .ok (.ofFragment .postgresql (Draft.fragment _ _)) :=
    (ofDraft_eq_ok_iff _ _ _).mpr ⟨complete, rfl⟩
  have counted : publishers.count compiler = .ok ⟨_, _⟩ :=
    map_eq_ok_iff.mpr ⟨_, (ofDraft_eq_ok_iff _ _ _).mpr ⟨whole, rfl⟩, rfl⟩
  have shares := Plan.shares_scope publishers compiler
  obtain ⟨inner, same, reads⟩ := shares.count _ counted
  exact ⟨by decide, _, _, inner, shown, counted, shares.unsplit _ shown, reads, by rw [same]⟩

end EagerLoad
