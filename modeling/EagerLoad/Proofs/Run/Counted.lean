import EagerLoad.Proofs.Plan.Batched
import EagerLoad.Proofs.Run.Errors
import EagerLoad.Proofs.Run.Fallback
import EagerLoad.Proofs.Run.Served

/-! # How many statements a run sends

The number of statements is up to the plan: one for a plan that is not split, one for every batch of a split
plan, and for the fallback one for the base rows and one for every relation, count and aggregate. What rows
there are decides no more than whether there are keys to ask by. -/
namespace EagerLoad

namespace Plan

variable {p : Plan} {c : Compiler} {compiled : CompiledPlan}

/-- How many statements a plan is compiled to. -/
def batchCount (p : Plan) (config : Config) : Nat :=
  if p.isSplit config then
    (p.relations.length + p.relationLimit config - 1) / p.relationLimit config
  else 1

theorem length_followUps_of_compile (compiles : p.compile c = .ok compiled) :
    compiled.query.followUps.length + 1 = p.batchCount c.config := by
  obtain ⟨-, -, query⟩ := compile_eq_ok_iff.mp compiles
  unfold batchCount
  split at query
  · rename_i limited
    obtain ⟨s, written, same⟩ := query
    obtain ⟨own, -, batched⟩ := split_batched written limited
    rw [if_pos limited, same]
    simp only [isSplit, Bool.and_eq_true, decide_eq_true_eq] at limited
    have more : 0 < (p.relations.length + p.relationLimit c.config - 1) / p.relationLimit c.config :=
      Nat.div_pos (by omega) limited.1
    have length : (CompiledQuery.split s).followUps.length = _ := batched.followUps_length
    rw [length, Nat.sub_add_cancel more]
  · rename_i whole
    obtain ⟨statement, -, same⟩ := query
    rw [if_neg whole, same]
    rfl

theorem due_of_compile (compiles : p.compile c = .ok compiled) (rows : List Row) :
    compiled.query.due rows =
      if Rows.hasValue rows p.entity.primaryKey then compiled.query.followUps else [] := by
  obtain ⟨-, -, query⟩ := compile_eq_ok_iff.mp compiles
  split at query
  · obtain ⟨s, written, same⟩ := query
    obtain ⟨-, -, key⟩ := split_eq_ok_iff.mp written
    rw [same, CompiledQuery.due, Rows.isEmpty_collectKeys, key]
    cases Rows.hasValue rows p.entity.primaryKey <;> rfl
  · obtain ⟨statement, -, same⟩ := query
    rw [same]
    exact (ite_self _).symm

end Plan

namespace Fallback

variable {o : Optimizer ε σ} {p : Plan} {rows : List Row} {services : List Service}

theorem hasValue_put {column : String} {s : Service} (other : column ≠ s.request.label) (rows : List Row) :
    Rows.hasValue (rows.map (s.put p)) column = Rows.hasValue rows column := by
  rw [Rows.hasValue, List.any_map]
  congr 1
  funext row
  rw [Function.comp, Service.put, Request.put, Row.get?_set, if_neg other]

/-- If no label stands for a key, a request is served by a statement exactly if the first rows have keys. -/
theorem Serves.length_eq (serves : Serves o p rows services)
    (apart : ∀ s ∈ services, ∀ t ∈ services, p.keyOf s.request.name ≠ t.request.label) :
    (services.filterMap Service.exchange?).length =
      services.countP fun s => Rows.hasValue rows (p.keyOf s.request.name) := by
  induction serves with
  | done => rfl
  | @next rows s rest due _ ih =>
    have later := ih fun t known u listed =>
      apart t (List.mem_cons_of_mem _ known) u (List.mem_cons_of_mem _ listed)
    have before : (rest.countP fun t => Rows.hasValue (rows.map (s.put p)) (p.keyOf t.request.name)) =
        rest.countP fun t => Rows.hasValue rows (p.keyOf t.request.name) := by
      refine List.countP_congr fun t known => ?_
      rw [hasValue_put (apart t (List.mem_cons_of_mem _ known) s List.mem_cons_self)]
    rw [before] at later
    obtain ⟨request, reply⟩ := s
    cases reply with
    | none =>
      have keyless : Rows.hasValue rows (p.keyOf request.name) = false := due
      rw [List.countP_cons_of_neg (by simp [keyless])]
      exact later
    | some sent =>
      have keyed : Rows.hasValue rows (p.keyOf request.name) = true := due.1
      rw [List.countP_cons_of_pos (by simp [keyed]), ← later]
      rfl

/-- The fallback sends a statement for the base rows, and one for each relation, count and aggregate whose
base rows have keys. -/
theorem load_sends (o : Optimizer ε σ) (p : Plan) (timeout : Option Duration)
    (apart : ∀ key ∈ p.keys, p.isSubqueryLabel key = false) :
    Sends (load o.journaled p timeout) fun loaded sent => ∃ statement base later,
      sent = ⟨statement, .ok base⟩ :: later ∧
      later.length = (relationNames p).countP (fun name => Rows.hasValue base (p.keyOf name)) ∧
      loaded.statements = sent.length := by
  refine (load_gathers o p timeout).mono fun loaded sent => ?_
  rintro ⟨memo, own, statement, base, services, -, -, asked, rfl, serves, -, statements⟩
  have listed (s) (known : s ∈ services) : s.request ∈ requests p := asked ▸ List.mem_map_of_mem known
  refine ⟨statement, base, _, rfl, ?_, statements⟩
  rw [serves.length_eq, ← names_requests, List.countP_map, ← asked, List.countP_map]
  · rfl
  · intro s known t other same
    have named : p.keyOf s.request.name ∈ p.keys :=
      Plan.mem_keys.mpr ⟨_, names_requests p ▸ List.mem_map_of_mem (listed s known), rfl⟩
    have free := apart _ named
    rw [same, isSubqueryLabel_label (listed t other)] at free
    cases free

end Fallback

namespace Optimizer

variable {o : Optimizer ε σ} {p : Plan} {c : CompiledPlan} {s : State ε σ} {x : Execution}

/-- Rows are found in a cache, or executed, or loaded by the fallback, with what is sent in each case. -/
theorem run_eq_ok (answered : (o.run p s).1 = .ok x) :
    (∃ tier c rows, x = hitReport tier c rows ∧ (o.journal p s).exchanges = []) ∨
    (∃ c rows report, p.compile (o.compiler s.memo) = .ok c ∧
      o.Settles c.query (o.journal p s).exchanges (.ok (rows, report)) ∧
      x = ⟨rows, c.layout, { report with subqueries := c.subqueries, rows := rows.length }⟩) ∨
    ∃ c e loaded, o.Unexecuted p c s e ∧ o.safeMode p = true ∧ o.instead p c s = .ok loaded ∧
      x = ⟨loaded.rows, c.layout, { usedFallback := true }⟩ := by
  obtain ⟨mirrored, start⟩ := o.journaled_twins.begin p s.opened s rfl
  obtain ⟨unsent, -, -⟩ := o.begin_unsent p s.opened
  rcases o.begin_fst p s with ⟨e, -, begun⟩ | ⟨c, compiles, ⟨-, begun⟩ | ⟨-, tier, rows, begun⟩⟩
  · rw [run_of_failed begun] at answered
    cases answered
  · right
    cases executed : (o.execute p c (o.begin p s).2).1 with
    | ok found =>
      obtain ⟨rows, report⟩ := found
      left
      rw [run_of_executed begun executed] at answered
      have settles := o.tried_settles p c s
      rw [executed] at settles
      obtain ⟨result, -⟩ := o.journaled_twins.execute p c _ _ start
      have published := run_of_executed (mirrored.trans begun) (result.trans executed)
      refine ⟨c, rows, report, compiles, ?_, (Except.ok.inj answered).symm⟩
      rw [journal, published, (o.publish_journal p _ rows _).1]
      exact settles
    | error e =>
      right
      have fails := unexecuted_iff.mpr ⟨_, begun, rfl, executed⟩
      cases mode : o.safeMode p with
      | false =>
        rw [run_of_fails fails, recover_exposed mode] at answered
        cases answered
      | true =>
        rw [run_of_fails fails, recover_safe mode] at answered
        obtain ⟨loaded, instead, same⟩ := map_eq_ok_iff.mp answered
        exact ⟨c, e, loaded, fails, rfl, instead, same.symm⟩
  · rw [run_of_hit begun] at answered
    rw [journal, run_of_hit (mirrored.trans begun)]
    exact .inl ⟨tier, c, rows, (Except.ok.inj answered).symm, unsent⟩

/-- After a failed execution the fallback sends what it needs to load the rows. -/
theorem instead_sends (apart : ∀ key ∈ p.keys, p.isSubqueryLabel key = false) {e : ExecutionError}
    (fails : o.Unexecuted p c s e) (on : o.safeMode p = true) {loaded : Loaded}
    (loads : o.instead p c s = .ok loaded) : ∃ statement base later,
      (o.journal p s).exchanges = o.tried p c s ++ ⟨statement, .ok base⟩ :: later ∧
      later.length = (Fallback.relationNames p).countP (fun name => Rows.hasValue base (p.keyOf name)) ∧
      loaded.statements = later.length + 1 := by
  obtain ⟨-, start⟩ := o.journaled_twins.begin p s.opened s rfl
  obtain ⟨-, ended⟩ := o.journaled_twins.execute p c _ _ start
  obtain ⟨-, noted⟩ := o.journaled_twins.note .fallingBack _ _ ended
  obtain ⟨answer, -⟩ := o.journaled_twins.load p (o.timeout p) _ _ noted
  obtain ⟨sent, exchanges, statement, base, later, rfl, number, statements⟩ :=
    Fallback.load_sends o p (o.timeout p) apart _ loaded (answer.trans loads)
  refine ⟨statement, base, later, ?_, number, statements⟩
  rw [journal_of_fails fails, recover_safe (o := o.journaled) on]
  exact exchanges

end Optimizer

/-- How many statements are sent for a plan that is answered rows. -/
structure Optimizer.Counted (o : Optimizer ε σ) (p : Plan) (s : State ε σ) : Prop where
  /-- None for cached rows. -/
  hit : ∀ x, (o.run p s).1 = .ok x → x.report.cacheHit.isSome = true →
    (o.journal p s).exchanges = []
  /-- All batches, or no more than the base statement if its rows have no keys; the report has the number. -/
  executed : ∀ x, (o.run p s).1 = .ok x → x.report.cacheHit = none → x.report.usedFallback = false →
    x.report.statements = (o.journal p s).exchanges.length ∧
      ∃ statement rows later, (o.journal p s).exchanges = ⟨statement, .ok rows⟩ :: later ∧
        x.report.statements =
          if Rows.hasValue rows p.entity.primaryKey then p.batchCount o.config else 1
  /-- In the fallback, after what failed, one for the base rows and one for each relation, count and aggregate
  with keys among them. No label may stand for a key. -/
  recovered : (∀ key ∈ p.keys, p.isSubqueryLabel key = false) → ∀ x, (o.run p s).1 = .ok x →
    x.report.usedFallback = true → ∃ c e loaded statement base later,
      o.Unexecuted p c s e ∧ (o.tried p c s).length ≤ p.batchCount o.config ∧
      o.instead p c s = .ok loaded ∧
      (o.journal p s).exchanges = o.tried p c s ++ ⟨statement, .ok base⟩ :: later ∧
      later.length = (Fallback.relationNames p).countP (fun name => Rows.hasValue base (p.keyOf name)) ∧
      loaded.statements = later.length + 1

namespace Optimizer

/-- The statements of a run are as many as the plan says, however many rows there are. -/
theorem run_counted (o : Optimizer ε σ) (p : Plan) (s : State ε σ) : o.Counted p s := by
  constructor
  case hit =>
    intro x answered hit
    rcases run_eq_ok answered with ⟨-, -, -, -, unsent⟩ | ⟨c, rows, report, -, settles, rfl⟩ |
      ⟨c, e, loaded, -, -, -, rfl⟩
    · exact unsent
    · obtain ⟨-, -, -, -, rfl, -⟩ := settles
      exact nomatch hit
    · exact nomatch hit
  case executed =>
    intro x answered missed direct
    rcases run_eq_ok answered with ⟨tier, c, rows, rfl, -⟩ | ⟨c, rows, report, compiles, settles, rfl⟩ |
      ⟨c, e, loaded, -, -, -, rfl⟩
    · exact nomatch missed
    · obtain ⟨base, later, sent, length, rfl, -⟩ := settles
      refine ⟨rfl, _, base, later, sent, ?_⟩
      have batches : c.query.followUps.length + 1 = p.batchCount o.config :=
        Plan.length_followUps_of_compile compiles
      dsimp only
      rw [sent, List.length_cons, length, Plan.due_of_compile compiles, ← batches]
      split <;> rfl
    · exact nomatch direct
  case recovered =>
    intro apart x answered fallback
    rcases run_eq_ok answered with ⟨tier, c, rows, rfl, -⟩ | ⟨c, rows, report, -, settles, rfl⟩ |
      ⟨c, e, loaded, fails, mode, instead, rfl⟩
    · exact nomatch fallback
    · obtain ⟨-, -, -, -, rfl, -⟩ := settles
      exact nomatch fallback
    · have batches : c.query.followUps.length + 1 = p.batchCount o.config :=
        Plan.length_followUps_of_compile fails.compiles
      have fewer : (o.tried p c s).length ≤ c.query.followUps.length + 1 := by
        have settles := o.tried_settles p c s
        obtain ⟨-, -, -, executed⟩ := unexecuted_iff.mp fails
        rw [executed] at settles
        exact settles.2.1
      obtain ⟨statement, base, later, sent, number, statements⟩ := instead_sends apart fails mode instead
      exact ⟨c, e, loaded, statement, base, later, fails, batches ▸ fewer, instead, sent, number, statements⟩

end Optimizer

namespace Catalogue

/-- The catalogue where the whole plan is too much to answer at once. -/
def hurried : Optimizer Unit Unit :=
  { config := optimizer.config
    registry := entities
    executor := ⟨.sqlite, fun statement _ _ =>
      { answer := if statement.bindings.length = 4 then .error (.timeout "5s") else .ok (answer statement)
        next := () }⟩
    store := none }

theorem hurried_recovers :
    ∃ x, (hurried.run authors start).1 = .ok x ∧ x.report.usedFallback = true := by
  have fallback : (hurried.run authors start).1.toOption.any (fun x => x.report.usedFallback) = true := by
    decide +kernel
  cases answered : (hurried.run authors start).1 with
  | ok x =>
    rw [answered] at fallback
    exact ⟨x, rfl, fallback⟩
  | error e =>
    rw [answered] at fallback
    exact nomatch fallback

end Catalogue

open Catalogue in
theorem Optimizer.run_counted_catalogue :
    (∀ key ∈ authors.keys, authors.isSubqueryLabel key = false) ∧
      (∃ x, (hurried.run authors start).1 = .ok x ∧ x.report.usedFallback = true) ∧
      ∃ c e loaded statement base later,
        hurried.Unexecuted authors c start e ∧
        (hurried.tried authors c start).length ≤ authors.batchCount hurried.config ∧
        hurried.instead authors c start = .ok loaded ∧
        (hurried.journal authors start).exchanges =
          hurried.tried authors c start ++ ⟨statement, .ok base⟩ :: later ∧
        later.length = (Fallback.relationNames authors).countP
          (fun name => Rows.hasValue base (authors.keyOf name)) ∧
        loaded.statements = later.length + 1 := by
  obtain ⟨x, answered, fallback⟩ := hurried_recovers
  have apart : ∀ key ∈ authors.keys, authors.isSubqueryLabel key = false := by decide
  exact ⟨apart, ⟨x, answered, fallback⟩,
    (hurried.run_counted authors start).recovered apart x answered fallback⟩

end EagerLoad
