import EagerLoad.Proofs.Plan.Filled
import EagerLoad.Proofs.Run.Errors
import EagerLoad.Proofs.Run.Projected

/-! # Parentheses of what is sent

A run sends the statements of its compiled plan and, if they fail in safe mode, those that the fallback loads its
rows with. Later batches and relations are asked for with keys, or not at all. -/
namespace EagerLoad

open Sql Sql.Draft

namespace Optimizer

/-- Where the statements of a run come from. -/
inductive Issues (o : Optimizer ε σ) (p : Plan) : Statement → Prop where
  | unsplit {memo : Memo} {s : Statement} (written : p.unsplit (o.compiler memo) = .ok s) : Issues o p s
  | base {memo : Memo} {split : Split} (written : p.split (o.compiler memo) = .ok split) : Issues o p split.base
  | followUp {memo : Memo} {split : Split} {f : FollowUp} {keys : List DbValue}
      (written : p.split (o.compiler memo) = .ok split) (listed : f ∈ split.followUps) (some : keys ≠ []) :
      Issues o p (f.bind o.executor.dialect keys)
  | baseOnly {memo : Memo} {s : Statement} (written : p.baseOnly (o.compiler memo) p.keys = .ok s) : Issues o p s
  | keyed {q : Fallback.Request} {keys : List DbValue} {s : Statement} (requested : q ∈ Fallback.requests p)
      (some : keys ≠ []) (asked : q.Asks o p keys s) : Issues o p s

section Issued

variable (o : Optimizer ε σ) {p : Plan}

variable {o} in
theorem Batches.bound {key : String} {keys : List DbValue} {followUps : List FollowUp} {rows : List Row}
    {report : Report} {sent : List Exchange} {result : Except ExecutionError (List Row × Report)}
    (batches : o.Batches key keys followUps rows report sent result) :
    ∀ x ∈ sent, ∃ f ∈ followUps, x.statement = f.bind o.executor.dialect keys := by
  have others {batch : FollowUp} {rest : List FollowUp} {x : Exchange}
      (there : ∃ f ∈ rest, x.statement = f.bind o.executor.dialect keys) :
      ∃ f ∈ batch :: rest, x.statement = f.bind o.executor.dialect keys :=
    there.imp fun _ known => known.imp_left (List.mem_cons_of_mem batch)
  induction batches with
  | done => exact List.forall_mem_nil _
  | answered _ ih => exact List.forall_mem_cons.mpr ⟨⟨_, List.mem_cons_self, rfl⟩, fun x here => others (ih x here)⟩
  | skipped _ _ _ ih =>
    exact List.forall_mem_cons.mpr ⟨⟨_, List.mem_cons_self, rfl⟩, fun x here => others (ih x here)⟩
  | stopped => exact List.forall_mem_singleton.mpr ⟨_, List.mem_cons_self, rfl⟩

/-- Executing sends the statements of a compiled plan, and follow-ups only for base rows with keys. -/
theorem execute_issues {memo : Memo} {c : CompiledPlan} (compiles : p.compile (o.compiler memo) = .ok c)
    (s : Journaled ε σ) : ∃ sent, Journaled.exchanges (o.journaled.execute p c s).2 = s.exchanges ++ sent ∧
      ∀ x ∈ sent, o.Issues p x.statement := by
  obtain ⟨-, -, query⟩ := Plan.compile_eq_ok_iff.mp compiles
  obtain ⟨query', layout, subqueries⟩ := c
  dsimp only at query
  split at query
  · obtain ⟨split, written, rfl⟩ := query
    have first : o.Issues p split.base := .base written
    change ∃ sent, Journaled.exchanges (o.journaled.executeSplit p split (o.journaled.timeout p) s).2 = _ ∧ _
    obtain ⟨e, -, sent, -⟩ | ⟨rows, later, result, -, sent, batches, -⟩ :=
      o.executeSplit_batches p split (o.journaled.timeout p) s
    · exact ⟨_, sent, List.forall_mem_singleton.mpr first⟩
    · refine ⟨_, sent, List.forall_mem_cons.mpr ⟨first, fun x here => ?_⟩⟩
      obtain ⟨f, due, bound⟩ := batches.bound x here
      rw [CompiledQuery.due] at due
      split at due
      case isTrue => exact absurd due List.not_mem_nil
      case isFalse some =>
        rw [bound]
        exact .followUp written due (by simpa using some)
  · obtain ⟨statement, written, rfl⟩ := query
    change ∃ sent, Journaled.exchanges (o.journaled.executeSingle statement (o.journaled.timeout p) s).2 = _ ∧ _
    have sent := o.fetchLogged_exchanges statement (o.journaled.timeout p) s
    rw [executeSingle, run_bind]
    refine ⟨[⟨statement, (o.journaled.fetchLogged statement (o.journaled.timeout p) s).1⟩], ?_,
      List.forall_mem_singleton.mpr (.unsplit written)⟩
    generalize o.journaled.fetchLogged statement (o.journaled.timeout p) s = answered at sent ⊢
    rcases answered with ⟨_ | _, t⟩ <;> exact sent

theorem recover_issues (p : Plan) (layout : Layout) (e : ExecutionError) (s : Journaled ε σ) :
    ∃ sent, Journaled.exchanges (o.journaled.recover p layout e s).2 = s.exchanges ++ sent ∧
      ∀ x ∈ sent, o.Issues p x.statement := by
  cases mode : o.journaled.safeMode p with
  | false =>
    rw [recover_exposed mode]
    exact ⟨[], (List.append_nil _).symm, List.forall_mem_nil _⟩
  | true =>
    rw [recover_safe mode]
    obtain ⟨sent, exchanges, each⟩ := Fallback.load_keyed o p (o.timeout p) (Run.note .fallingBack s).2
    refine ⟨sent, exchanges, fun x here => ?_⟩
    obtain ⟨memo, written⟩ | ⟨q, requested, keys, some, asked⟩ := each x here
    · exact .baseOnly written
    · exact .keyed requested some asked

theorem journal_issues (p : Plan) (s : State ε σ) : ∀ x ∈ (o.journal p s).exchanges, o.Issues p x.statement := by
  obtain ⟨unsent, -, -⟩ := o.begin_unsent p s.opened
  rcases o.journaled.begin_fst p s.opened with
    ⟨e, -, begun⟩ | ⟨c, compiles, ⟨-, begun⟩ | ⟨-, tier, rows, begun⟩⟩
  · rw [journal, run_of_failed begun, unsent]
    exact List.forall_mem_nil _
  · obtain ⟨sent, exchanges, issued⟩ := o.execute_issues compiles (o.journaled.begin p s.opened).2
    rw [unsent] at exchanges
    cases executed : (o.journaled.execute p c (o.journaled.begin p s.opened).2).1 with
    | ok found =>
      obtain ⟨rows, report⟩ := found
      rw [journal, run_of_executed begun executed, (o.publish_journal p _ rows _).1, exchanges]
      exact issued
    | error e =>
      obtain ⟨more, all, later⟩ := o.recover_issues p c.layout e (o.journaled.execute p c _).2
      rw [journal, run_of_unexecuted begun executed, all, exchanges]
      exact List.forall_mem_append.mpr ⟨issued, later⟩
  · rw [journal, run_of_hit begun, unsent]
    exact List.forall_mem_nil _

end Issued

variable {o : Optimizer ε σ} {p : Plan}

/-- If the filters of a plan are sound, so is everything that is sent for it. -/
theorem Issues.filled (sound : p.EveryFilter fun f => f.Grouped ∧ f.raws = []) {s : Statement}
    (issued : o.Issues p s) : Filled s.sql.toList := by
  cases issued with
  | unsplit done => exact Plan.filled_of_written sound rfl (List.Subset.refl _) done
  | @base memo split done =>
    obtain ⟨first, -⟩ := Plan.split_eq_ok_iff.mp done
    exact Plan.filled_of_written sound rfl (p.firstBatch_subset _) first
  | followUp done listed some =>
    obtain ⟨-, later, -⟩ := Plan.split_eq_ok_iff.mp done
    obtain ⟨batch, known, bound⟩ := exists_of_forall₂ later.flip listed
    exact Plan.filled_bind sound (p.laterBatch_subset known) bound some
  | baseOnly done => exact Plan.filled_of_written sound rfl (List.nil_subset _) done
  | @keyed q keys _ requested _ asked =>
    simp only [Fallback.requests, List.mem_append, List.mem_map] at requested
    obtain (⟨r, known, rfl⟩ | ⟨n, known, rfl⟩) | ⟨a, known, rfl⟩ := requested
    · obtain ⟨memo, columns, -, -, done⟩ := asked
      exact (Keyed.relation_enclosing _ _ keys (sound.relations r known) columns).filled_of_ofDraft done
    · obtain ⟨memo, done⟩ := asked
      exact (Keyed.count_enclosing _ _ keys (sound.counts n known)).filled_of_ofDraft done
    · obtain ⟨memo, done⟩ := asked
      exact (Keyed.aggregate_enclosing _ _ keys (sound.aggregates a known)).filled_of_ofDraft done

end Optimizer

/-- That no list of values and no group of conditions is empty in anything that is sent for a plan. -/
structure Optimizer.NothingEmpty (o : Optimizer ε σ) (p : Plan) (s : State ε σ) : Prop where
  /-- No filter of the plan has an empty group, at any depth. -/
  grouped : p.EveryFilter Filter.Grouped
  /-- A choice among no values is a constant. -/
  constants : ∀ (q : Qualifier) column negated, (Condition.among column [] negated).draft q =
    [.text (if negated then "1 = 1" else "1 = 0")]
  /-- What is asked for by keys is asked for by some. -/
  issued : ∀ x ∈ (o.journal p s).exchanges, o.Issues p x.statement
  filled : ∀ x ∈ (o.journal p s).exchanges, Filled x.statement.sql.toList
  /-- Lists and groups are opened after a blank or by other parentheses. -/
  listed : ∀ x ∈ (o.journal p s).exchanges, ∀ opening ∈ [" (", "(("], ∀ front back,
    x.statement.sql.toList = front ++ opening.toList ++ back → firstInk back ≠ some ')'
  /-- Rows are counted, and looked for, by statements like these. -/
  counted : ∀ memo statement, p.count (o.compiler memo) = .ok statement → Filled statement.sql.toList
  existence : ∀ memo statement, p.existence (o.compiler memo) = .ok statement → Filled statement.sql.toList

/-- If the filters of a plan are built by calls and have no raw texts, nothing that a run sends has an empty list
of values or an empty group, whatever the executor answers. -/
theorem Optimizer.nothing_empty (o : Optimizer ε σ) {p : Plan} (s : State ε σ)
    (built : p.EveryFilter Filter.Built) (rawless : p.raws = []) : o.NothingEmpty p s := by
  have sound := built.sound rawless
  have filled : ∀ x ∈ (o.journal p s).exchanges, Filled x.statement.sql.toList :=
    fun x here => (o.journal_issues p s x here).filled sound
  exact
    { grouped := built.mono fun _ built => built.grouped
      constants := fun _ _ _ => rfl
      issued := o.journal_issues p s
      filled
      listed := fun x here opening known front back shape => (filled x here).listed known shape
      counted := fun _ _ written => Plan.filled_count sound written
      existence := fun _ _ written => Plan.filled_existence sound written }

namespace Parentheses

/-- The books of an author that are neither in no list nor in groups of nothing. -/
def unlisted : Filter :=
  applyCalls {} [.among .and "title" [] false, .group .or [.group .and [], .among .or "title" [] true]]

/-- Authors and their books, with groups in groups, empty groups and empty lists. -/
def calls : List QueryCall :=
  [.select ["name"],
    .filter (.group .and []),
    .filter (.group .or [.group .and [.group .or []], .group .and [.among .and "id" [] false]]),
    .filter (.merge [.among .and "name" [] true, .merge []]),
    .relation { path := "books", kind := some .collection, filter := some unlisted },
    .safeMode true]

def author : Entity :=
  { type := "Author", table := "authors", columns := ["name"]
    relations := [("books", .hasMany "Book" "author_id" "id")] }

/-- An executor that fails first, and then finds two authors. -/
def optimizer : Optimizer Nat Unit :=
  { config := {}
    registry := Registry.register [] { type := "Book", table := "books", columns := ["title"] }
    executor := ⟨.sqlite, fun _ _ sent =>
      { answer := if sent = 0 then .error (.database "locked") else .ok [[("id", .int 1)], [("id", .int 2)]]
        next := sent + 1 }⟩
    store := none }

def authors : Plan := QueryCall.build author calls

theorem built : authors.EveryFilter Filter.Built := by
  have books : unlisted.Built :=
    built_applyCalls .empty _ (by simp [callsBuild, FilterCall.Builds])
  refine QueryCall.built_build author ?_
  simp only [calls, List.forall_mem_cons, QueryCall.Builds, FilterCall.Builds, callsBuild]
  simp [books]

/-- The last of three statements asks for the books of both authors. -/
def loadsBooks : Statement :=
  ⟨"SELECT \"books_rel\".\"author_id\" AS \"__owner_key\", \"books_rel\".\"id\", \"books_rel\".\"title\" " ++
      "FROM \"books\" AS \"books_rel\" WHERE \"books_rel\".\"author_id\" IN (?, ?) AND (1 = 0 OR (1 = 1))",
    [.int64 1, .int64 2]⟩

end Parentheses

open Parentheses in
theorem Optimizer.nothing_empty_authors :
    authors.EveryFilter Filter.Built ∧ authors.raws = [] ∧
      (optimizer.journal authors { executor := 0, store := () }).exchanges[2]?.map Exchange.statement =
        some loadsBooks ∧
      optimizer.NothingEmpty authors { executor := 0, store := () } := by
  have rawless : authors.raws = [] := by decide
  exact ⟨built, rawless, by decide +kernel, nothing_empty optimizer _ built rawless⟩

end EagerLoad
