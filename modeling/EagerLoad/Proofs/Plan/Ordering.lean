import EagerLoad.Proofs.Plan.Shared
import EagerLoad.Proofs.Relation.Aliases

/-! # The order and the limit of base rows

A statement of rows is ordered by the terms of the plan, in their order. A term that names a subquery which the
statement does not select is left out, and so is the keyword if all terms are. The limit is the least of those
that are set, and follow-ups have neither. -/
namespace EagerLoad

open Sql Sql.Draft

namespace Plan

/-- Whether a term names no subquery, or one that is selected. -/
def keeps (p : Plan) (part : Part) (t : OrderTerm) : Bool :=
  !p.isSubqueryLabel t.column || p.emits part t.column

def keptOrder (p : Plan) (part : Part) : List OrderTerm := p.order.filter (p.keeps part)

/-- Whether the base entity reads a column from its satellite table. -/
def localizes (p : Plan) (c : Compiler) (column : String) : Bool :=
  (p.localization? c).any fun l => l.covers column

/-- What a term orders by: a subquery by its label, another column by its table and name. -/
def orderedBy (p : Plan) (c : Compiler) (column : String) : String :=
  if p.isSubqueryLabel column then c.dialect.quote column
  else
    let (table, field) := referred (if p.localizes c column then p.satelliteAlias else p.table) column
    c.dialect.qualified table field

/-- Terms as they are written, with the keyword if there are any. -/
def orderText (p : Plan) (c : Compiler) (terms : List OrderTerm) : String :=
  if terms.isEmpty then ""
  else " ORDER BY " ++
    ", ".intercalate (terms.map fun t => p.orderedBy c t.column ++ " " ++ t.direction.sql)

/-- The least of the limits that are set. -/
def leastLimit (p : Plan) (c : Compiler) : Option Nat := (p.limit.toList ++ c.config.maxLimit.toList).min?

section Order

variable (p : Plan) (c : Compiler) (part : Part)

/-- A term as it is written if it is kept. -/
def termDraft (t : OrderTerm) : Draft := t.draft (if p.isSubqueryLabel t.column then {} else p.qualifier c)

theorem clause_cons (keyword separator : String) (item : Draft) (rest : List Draft) :
    clause keyword separator (item :: rest) = .text keyword :: item ++ clause separator separator rest := by
  cases rest with
  | nil => simp [clause, separated]
  | cons next others => simp [clause, separated]

/-- But for notices, the order is a clause of the terms that are kept. -/
theorem fragment_orderTail (d : Dialect) (keyword : String) (terms : List OrderTerm) :
    (p.orderTail c part keyword terms).fragment d =
      (clause keyword ", " ((terms.filter (p.keeps part)).map (p.termDraft c))).fragment d := by
  induction terms generalizing keyword with
  | nil => rfl
  | cons t rest ih =>
    unfold orderTail
    by_cases label : p.isSubqueryLabel t.column = true
    · by_cases emitted : p.emits part t.column = true
      · rw [if_neg (by simp [label]), if_pos emitted, List.filter_cons_of_pos (by simp [keeps, emitted]),
          List.map_cons, clause_cons, fragment_append, ih, ← fragment_append, termDraft, if_pos label]
      · rw [if_neg (by simp [label]), if_neg emitted,
          List.filter_cons_of_neg (by simp [keeps, label, emitted]), ← ih]
        simp [Draft.fragment, Step.sql, Step.bindings]
    · rw [if_pos (by simp [label]), List.filter_cons_of_pos (by simp [keeps, label]), List.map_cons,
        clause_cons, fragment_append, ih, ← fragment_append, termDraft, if_neg label]

theorem forColumn_qualifier (column : String) : (p.qualifier c).forColumn column =
    some (if p.localizes c column then p.satelliteAlias else p.table) := by
  rw [qualifier, Qualifier.forColumn_localize, localizes]
  cases p.localization? c with
  | none => rfl
  | some l => rfl

/-- The label of a subquery is a valid name, and so it is quoted as a whole. -/
theorem sql_termDraft {t : OrderTerm}
    (valid : p.isSubqueryLabel t.column = true → Identifier.fault? t.column = none) :
    ((p.termDraft c t).fragment c.dialect).sql = p.orderedBy c t.column ++ " " ++ t.direction.sql := by
  have direction : (Draft.fragment c.dialect [.text " ", .text t.direction.sql]).sql =
      " " ++ t.direction.sql := by
    simp [Draft.fragment, Step.sql]
  have column : ∀ q : Qualifier, (Draft.fragment c.dialect (t.draft q)).sql =
      (Draft.fragment c.dialect (q.column t.column)).sql ++ " " ++ t.direction.sql := by
    intro q
    rw [OrderTerm.draft, fragment_append, Fragment.append, direction, String.append_assoc]
  rw [termDraft, column, orderedBy]
  by_cases label : p.isSubqueryLabel t.column = true
  · have undotted : Text.splitFirst? '.' t.column.toList = none := undotted_of_valid (valid label)
    rw [if_pos label, if_pos label, Qualifier.column]
    unfold Draft.column
    rw [undotted]
    simp [Qualifier.forColumn, Draft.fragment, Step.sql]
  · rw [if_neg label, if_neg label, Qualifier.column, forColumn_qualifier, column_eq_qualified, sql_qualified]

/-- A label of a subquery that a statement selects is a valid name. -/
theorem fault_of_emits (complete : (p.draft c part).failure? = none) {x : String}
    (emitted : p.emits part x = true) : Identifier.fault? x = none := by
  obtain ⟨columns, resolved, items, -⟩ := (p.draft_complete_iff c part).mp complete
  obtain ⟨entry, carried, rfl⟩ := List.mem_map.mp ((p.emits_iff c part x).mp emitted)
  have asked : entry.2 ∈ p.askedItems c part columns := by
    rw [askedItems_eq]
    exact List.mem_append_right _ (List.mem_map_of_mem carried)
  exact (p.subqueryItems_labelled (d := c.dialect) c part entry carried
    (items _ (p.mem_selectItems_of_asked c part columns asked))).1

theorem sql_orderTail (complete : (p.draft c part).failure? = none) :
    ((p.orderTail c part " ORDER BY " p.order).fragment c.dialect).sql = p.orderText c (p.keptOrder part) := by
  have terms : (p.keptOrder part).map (fun t => ((p.termDraft c t).fragment c.dialect).sql) =
      (p.keptOrder part).map fun t => p.orderedBy c t.column ++ " " ++ t.direction.sql := by
    apply List.map_congr_left
    intro t kept
    apply sql_termDraft
    intro label
    have selected := (List.mem_filter.mp kept).2
    rw [keeps, label, Bool.not_true, Bool.false_or] at selected
    exact p.fault_of_emits c part complete selected
  have listed := sql_separated c.dialect ", " ((p.keptOrder part).map (p.termDraft c))
  rw [List.map_map, Function.comp_def, terms] at listed
  rw [fragment_orderTail, ← keptOrder, orderText, clause, List.isEmpty_map]
  split
  · rfl
  · have opened := fragment_append c.dialect [.text " ORDER BY "]
      (separated ", " ((p.keptOrder part).map (p.termDraft c)))
    rw [List.cons_append, List.nil_append] at opened
    rw [opened, Fragment.append, listed]
    simp [Draft.fragment, Step.sql]

theorem rowLimit_bounded (bounded : part.bounded = true) : p.rowLimit c part = p.leastLimit c := by
  unfold rowLimit leastLimit
  rw [if_pos bounded]
  cases p.limit <;> cases c.config.maxLimit <;> rfl

end Order

/-- The statements that are compiled for the rows of a plan, with the parts that they carry. -/
inductive RowsOf (p : Plan) (c : Compiler) : Part → Statement → Prop where
  | unsplit {s : Statement} : p.unsplit c = .ok s → RowsOf p c p.wholePart s
  | base {s : Split} : p.split c = .ok s → RowsOf p c (p.firstPart (p.firstBatch c.config)) s.base
  | baseOnly {keys : List String} {s : Statement} : p.baseOnly c keys = .ok s → RowsOf p c (basePart keys) s

/-- How the rows of a statement are ordered and limited. -/
structure OrdersRows (p : Plan) (c : Compiler) (part : Part) (s : Statement) : Prop where
  /-- What a part carries is what its statement selects. -/
  selected : ∀ x, p.emits part x = true ↔
    ∃ item ∈ p.selection c part, Labelled c.dialect x item.sql.toList
  reads : p.ReadsRows c (p.selection c part)
    (p.orderText c (p.keptOrder part) ++ c.dialect.limitOffset (p.leastLimit c) p.offset) s

/-- The rows of some keys, and no more than them. -/
def keyScope (p : Plan) (d : Dialect) (keys : List DbValue) : Fragment :=
  ⟨" FROM " ++ d.quote p.table ++ " WHERE " ++ d.qualified p.table p.entity.primaryKey ++ " IN (" ++
    ", ".intercalate (keys.map fun _ => "?") ++ ")", keys⟩

variable {p : Plan} {c : Compiler}

theorem ordersRows_of_ofDraft {part : Part} {s : Statement} (whole : part.byKeys = false)
    (bounded : part.bounded = true) (written : Statement.ofDraft c.dialect (p.draft c part) = .ok s) :
    p.OrdersRows c part s := by
  have complete := ((ofDraft_eq_ok_iff _ _ _).mp written).1
  refine ⟨fun x => (p.labelled_iff c part complete x).symm, ?_⟩
  have reads := reads_of_ofDraft whole written
  rw [ending, fragment_append, Fragment.append, p.sql_orderTail c part complete,
    p.rowLimit_bounded c part bounded] at reads
  simpa [Draft.fragment, Step.sql] using reads

theorem followUp_reads {batch : List RelationRequest} {f : FollowUp} (written : p.followUp c batch = .ok f)
    (keys : List DbValue) : Statement.Reads c.dialect (p.selection c (p.laterPart batch))
      (p.keyScope c.dialect keys) "" (f.bind c.dialect keys) := by
  obtain ⟨complete, same⟩ := followUp_eq_ok_iff.mp written
  have keyed : Draft.fragment c.dialect (if (p.laterPart batch).byKeys then p.openKeys
      else p.satelliteJoin c ++ p.clauses c (p.laterPart batch)) =
        ⟨" WHERE " ++ c.dialect.qualified p.table p.entity.primaryKey ++ " IN (", []⟩ := by
    simp [laterPart, openKeys, Draft.fragment, Draft.qualified, Dialect.qualified, Step.sql, Step.bindings,
      String.append_assoc]
  have bound : f.bind c.dialect keys = .ofFragment c.dialect
      (((Fragment.selecting (p.selection c (p.laterPart batch))).append (p.keyScope c.dialect keys)).append
        ⟨"", []⟩) := by
    rw [FollowUp.bind, same, p.fragment_draft c complete, keyed]
    simp [Fragment.select, Fragment.append, Fragment.selecting, keyScope, String.append_assoc]
  rw [bound]
  exact Statement.reads_of_written List.not_mem_nil

/-- Statements of rows are ordered by the terms of the plan in their order, without those that name a subquery
which they do not select, and limited by the least limit. Follow-ups are neither. -/
theorem orders_rows (p : Plan) (c : Compiler) :
    (∀ part s, p.RowsOf c part s → p.OrdersRows c part s) ∧
      ∀ s, p.split c = .ok s → List.Forall₂ (fun batch f => ∀ keys,
        Statement.Reads c.dialect (p.selection c (p.laterPart batch)) (p.keyScope c.dialect keys) ""
          (f.bind c.dialect keys)) (p.laterBatches c.config) s.followUps := by
  constructor
  · intro part s rows
    cases rows with
    | unsplit written => exact ordersRows_of_ofDraft rfl rfl written
    | base split => exact ordersRows_of_ofDraft rfl rfl (split_eq_ok_iff.mp split).1
    | baseOnly written => exact ordersRows_of_ofDraft rfl rfl written
  · intro s split
    obtain ⟨-, followUps, -⟩ := split_eq_ok_iff.mp split
    exact followUps.imp fun batch f written keys => followUp_reads written keys

end Plan

namespace Jukebox

def compiler : Compiler :=
  { dialect := .sqlite
    registry := [("Play", { type := "Play", table := "plays", columns := ["song_id"] })]
    memo := []
    config := { maxLimit := some 20 } }

/-- Songs, those that are played most before the others. -/
def songs : Plan :=
  { entity :=
      { type := "Song", table := "songs", columns := ["title"]
        relations := [("plays", .hasMany "Play" "song_id" "id")] }
    columns := .columns ["title"]
    counts := [{ relation := "plays" }]
    order := [⟨"plays_count", .descending⟩, ⟨"title", .ascending⟩]
    limit := some 100 }

def alone : Statement :=
  ⟨"SELECT \x22songs\x22.\x22title\x22, \x22songs\x22.\x22id\x22 FROM \x22songs\x22 ORDER BY \x22songs\x22.\x22title\x22 ASC LIMIT 20",
    []⟩

end Jukebox

open Jukebox in
/-- Without the count, the first term is left out. -/
theorem orders_rows_songs :
    songs.baseOnly compiler ["id"] = .ok alone ∧
      songs.keptOrder (Plan.basePart ["id"]) = [⟨"title", .ascending⟩] ∧
      songs.OrdersRows compiler (Plan.basePart ["id"]) alone := by
  have written : songs.baseOnly compiler ["id"] = .ok alone := by decide
  exact ⟨written, by decide, (Plan.orders_rows songs compiler).1 _ _ (.baseOnly written)⟩

end EagerLoad
