import EagerLoad.Filter.Call
import EagerLoad.Proofs.Filter.Written
import EagerLoad.Proofs.Sql.Filled

/-! # Filters that are built by calls

No call leaves an empty group in a filter, at any depth: what would be one is left out. So the conditions of
filters without raw texts have something in all their parentheses. -/
namespace EagerLoad

/-- Whether a filter is built by calls. What is grouped or merged is built by calls as well. -/
inductive Filter.Built : Filter → Prop where
  | empty : Built {}
  | compare {f : Filter} (connective : Connective) (column : String) (operator : Comparison) (value : DbValue) :
      Built f → Built (f.add connective (.compare column operator value))
  | columns {f : Filter} (left : String) (operator : Comparison) (right : String) :
      Built f → Built (f.and (.columns left operator right))
  | among {f : Filter} (connective : Connective) (column : String) (values : List DbValue) (negated : Bool) :
      Built f → Built (f.add connective (.among column values negated))
  | null {f : Filter} (connective : Connective) (column : String) (negated : Bool) :
      Built f → Built (f.add connective (.null column negated))
  | between {f : Filter} (column : String) (low high : DbValue) :
      Built f → Built (f.and (.between column low high))
  | raw {f : Filter} (sql : String) (bindings : List DbValue) : Built f → Built (f.and (.raw sql bindings))
  | group {f g : Filter} (connective : Connective) : Built f → Built g → Built (f.addGroup connective g)
  | order {f : Filter} (column : String) (direction : Direction) : Built f → Built (f.orderBy column direction)
  | limit {f : Filter} (n : Nat) : Built f → Built (f.withLimit n)
  | merge {f g : Filter} : Built f → Built g → Built (f.merge g)

mutual

/-- Whether the filters that a call is given are built by calls. -/
def FilterCall.Builds : FilterCall → Prop
  | .group _ calls => callsBuild calls
  | .merge calls => callsBuild calls
  | .mergeWith filter => filter.Built
  | _ => True

def callsBuild : List FilterCall → Prop
  | [] => True
  | call :: rest => call.Builds ∧ callsBuild rest

end

mutual

/-- Whether no group in a condition is empty, at any depth. -/
def Condition.Grouped : Condition → Prop
  | .group clauses => clauses ≠ [] ∧ clausesGrouped clauses
  | _ => True

def clausesGrouped : List Clause → Prop
  | [] => True
  | (_, condition) :: rest => condition.Grouped ∧ clausesGrouped rest

end

def Filter.Grouped (f : Filter) : Prop := clausesGrouped f.clauses

mutual

theorem FilterCall.built_apply {f : Filter} (built : f.Built) (call : FilterCall) (builds : call.Builds) :
    (call.apply f).Built := by
  cases call with
  | compare connective column operator value => exact .compare connective column operator value built
  | columns left operator right => exact .columns left operator right built
  | among connective column values negated => exact .among connective column values negated built
  | null connective column negated => exact .null connective column negated built
  | between column low high => exact .between column low high built
  | raw sql bindings => exact .raw sql bindings built
  | group connective calls =>
    rw [FilterCall.Builds] at builds
    rw [FilterCall.apply]
    exact .group connective built (built_applyCalls .empty calls builds)
  | order column direction => exact .order column direction built
  | limit n => exact .limit n built
  | merge calls =>
    rw [FilterCall.Builds] at builds
    rw [FilterCall.apply]
    exact .merge built (built_applyCalls .empty calls builds)
  | mergeWith filter =>
    rw [FilterCall.Builds] at builds
    exact .merge built builds

theorem built_applyCalls {f : Filter} (built : f.Built) (calls : List FilterCall) (builds : callsBuild calls) :
    (applyCalls f calls).Built := by
  cases calls with
  | nil => exact built
  | cons call rest =>
    rw [callsBuild] at builds
    rw [applyCalls]
    exact built_applyCalls (call.built_apply built builds.1) rest builds.2

end

section Groups

theorem clausesGrouped_append {first second : List Clause} :
    clausesGrouped (first ++ second) ↔ clausesGrouped first ∧ clausesGrouped second := by
  induction first with
  | nil => simp [clausesGrouped]
  | cons clause rest ih => simp [clausesGrouped, ih, and_assoc]

variable {f g : Filter}

theorem Filter.Grouped.add (grouped : f.Grouped) (connective : Connective) {condition : Condition}
    (own : condition.Grouped) : (f.add connective condition).Grouped :=
  clausesGrouped_append.mpr ⟨grouped, own, trivial⟩

/-- What would be an empty group is left out. -/
theorem Filter.Grouped.addGroup (hf : f.Grouped) (connective : Connective) (hg : g.Grouped) :
    (f.addGroup connective g).Grouped := by
  unfold Filter.addGroup
  split
  · exact hf
  case isFalse some => exact hf.add connective ⟨by simpa using some, hg⟩

theorem Filter.Grouped.merge (hf : f.Grouped) (hg : g.Grouped) : (f.merge g).Grouped := by
  change clausesGrouped (Filter.mergeClauses f.clauses g.clauses)
  unfold Filter.mergeClauses
  split
  · exact hf
  case isFalse some =>
    split
    · exact hg
    · exact clausesGrouped_append.mpr ⟨hf, ⟨by simpa using some, hg⟩, trivial⟩

/-- No filter that is built by calls has an empty group. -/
theorem Filter.Built.grouped (built : f.Built) : f.Grouped := by
  induction built with
  | empty => trivial
  | compare connective _ _ _ _ ih => exact ih.add connective trivial
  | columns _ _ _ _ ih => exact ih.add .and trivial
  | among connective _ _ _ _ ih => exact ih.add connective trivial
  | null connective _ _ _ ih => exact ih.add connective trivial
  | between _ _ _ _ ih => exact ih.add .and trivial
  | raw _ _ _ ih => exact ih.add .and trivial
  | group connective _ _ hf hg => exact hf.addGroup connective hg
  | order _ _ _ ih => exact ih
  | limit _ _ ih => exact ih
  | merge _ _ hf hg => exact hf.merge hg

end Groups

open Sql Sql.Draft

section Drafts

variable {d : Dialect} (q : Qualifier)

theorem Comparison.sql_enclosed (operator : Comparison) : Enclosed operator.sql.toList := by
  cases operator <;> decide +kernel

theorem OrderTerm.draft_enclosing (t : OrderTerm) : Enclosing d (t.draft q) := by
  refine Enclosing.append (.column _ _) (.plain (by decide) (.word ?_ .nil))
  cases t.direction <;> decide +kernel

theorem orderDraft_enclosing (terms : List OrderTerm) : Enclosing d (orderDraft q terms) := by
  refine .separated (.of_notMem (by decide)) fun draft found => ?_
  obtain ⟨term, -, rfl⟩ := List.mem_map.mp found
  exact term.draft_enclosing q

/-- A condition begins with a column, a constant or parentheses. -/
theorem Condition.draft_inks (c : Condition) : Inks d (c.draft q) := by
  have column (name : String) (rest : Draft) : Inks d (q.column name ++ rest) := Inks.append (.column _ _) rest
  cases c with
  | compare name operator value =>
    obtain ⟨negated, same⟩ | same := Condition.draft_compare q name operator value
    · rw [same, Condition.draft]
      exact column _ _
    · rw [same]
      exact column _ _
  | columns left operator right =>
    rw [Condition.draft, List.append_assoc]
    exact column _ _
  | among name bound negated =>
    cases bound with
    | nil =>
      rw [Condition.draft]
      exact .word (by cases negated <;> decide +kernel) _
    | cons value rest =>
      rw [Condition.draft, List.append_assoc]
      exact column _ _
  | null name negated =>
    rw [Condition.draft]
    exact column _ _
  | between name low high =>
    rw [Condition.draft]
    exact column _ _
  | group clauses =>
    rw [Condition.draft]
    exact .word (by decide) _
  | raw sql bindings =>
    rw [Condition.draft]
    exact .word (by decide) _

theorem clausesDraft_inks {clauses : List Clause} (some : clauses ≠ []) : Inks d (clausesDraft q clauses) := by
  obtain ⟨⟨connective, condition⟩, rest, rfl⟩ := List.exists_cons_of_ne_nil some
  rw [clausesDraft]
  exact (condition.draft_inks q).append _

mutual

theorem Condition.draft_enclosing (c : Condition) (grouped : c.Grouped) (rawless : c.raws = []) :
    Enclosing d (c.draft q) := by
  have column (name : String) : Enclosing d (q.column name) := .column _ _
  have tested (name : String) (negated : Bool) :
      Enclosing d ((Condition.null name negated).draft q) := by
    rw [Condition.draft]
    exact (column name).append (.word (by cases negated <;> decide +kernel) .nil)
  cases c with
  | compare name operator value =>
    obtain ⟨negated, same⟩ | same := Condition.draft_compare q name operator value
    · rw [same]
      exact tested name negated
    · rw [same]
      exact (column name).append (.plain (by decide) (.word operator.sql_enclosed
        (.plain (by decide) (.bind _ .nil))))
  | columns left operator right =>
    rw [Condition.draft]
    have between : Enclosing d [.text " ", .text operator.sql, .text " "] :=
      .plain (by decide) (.word operator.sql_enclosed (.plain (by decide) .nil))
    exact ((column left).append between).append (column right)
  | among name bound negated =>
    cases bound with
    | nil =>
      rw [Condition.draft]
      exact .word (by cases negated <;> decide +kernel) .nil
    | cons value rest =>
      rw [Condition.draft, List.append_assoc]
      exact (column name).append (.bindList (by cases negated <;> decide +kernel) (by simp))
  | null name negated => exact tested name negated
  | between name low high =>
    rw [Condition.draft]
    exact (column name).append (.plain (by decide) (.bind _ (.plain (by decide) (.bind _ .nil))))
  | group clauses =>
    rw [Condition.Grouped] at grouped
    rw [Condition.raws] at rawless
    rw [Condition.draft]
    exact .opened (by decide +kernel) ((clausesDraft_inks q grouped.1).append _)
      ((clausesDraft_enclosing clauses grouped.2 rawless).append (.plain (by decide) .nil))
  | raw sql bindings => exact absurd rawless (by simp [Condition.raws])

theorem clausesDraft_enclosing (clauses : List Clause) (grouped : clausesGrouped clauses)
    (rawless : clausesRaws clauses = []) : Enclosing d (clausesDraft q clauses) := by
  cases clauses with
  | nil => exact .nil
  | cons clause rest =>
    obtain ⟨connective, condition⟩ := clause
    rw [clausesGrouped] at grouped
    rw [clausesRaws, List.append_eq_nil_iff] at rawless
    rw [clausesDraft]
    exact (condition.draft_enclosing grouped.1 rawless.1).append (clausesTail_enclosing rest grouped.2 rawless.2)

theorem clausesTail_enclosing (clauses : List Clause) (grouped : clausesGrouped clauses)
    (rawless : clausesRaws clauses = []) : Enclosing d (clausesTail q clauses) := by
  cases clauses with
  | nil => exact .nil
  | cons clause rest =>
    obtain ⟨connective, condition⟩ := clause
    rw [clausesGrouped] at grouped
    rw [clausesRaws, List.append_eq_nil_iff] at rawless
    rw [clausesTail]
    exact .word (by cases connective <;> decide +kernel)
      ((condition.draft_enclosing grouped.1 rawless.1).append (clausesTail_enclosing rest grouped.2 rawless.2))

end

/-- The conditions of a filter in parentheses, after a word that opens them. -/
theorem Filter.conditions_enclosing {f : Filter} {opening : String} (known : Filled opening.toList)
    (grouped : f.Grouped) (rawless : f.raws = []) (some : f.hasConditions = true) :
    Enclosing d (.text opening :: (f.conditions q ++ [.text ")"])) := by
  have clauses : f.clauses ≠ [] := by simpa [Filter.hasConditions] using some
  exact .opened known ((clausesDraft_inks q clauses).append _)
    ((clausesDraft_enclosing q f.clauses grouped rawless).append (.plain (by decide) .nil))

end Drafts
end EagerLoad
