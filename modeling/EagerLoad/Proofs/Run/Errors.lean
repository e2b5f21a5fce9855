import EagerLoad.Proofs.Run.Complete

/-! # What a run makes of errors

A plan that does not compile is answered its error, and no statement is sent. A statement that fails is the
last one that is sent unless its failure is skipped; its error is the answer, or in safe mode what the
fallback gives. A run fails in no other case, and whenever it fails or falls back it keeps nothing. -/
namespace EagerLoad

theorem Breaks.unique {sent : List Exchange} {e e' : ExecutionError} (breaks : Breaks sent e)
    (again : Breaks sent e') : e = e' := by
  obtain ⟨answered, last, rfl, -⟩ := breaks
  obtain ⟨others, other, same, -⟩ := again
  have ends := (List.append_inj' same rfl).2
  exact Except.error.inj (congrArg Exchange.answer (List.cons.inj ends).1)

namespace Optimizer

variable {o : Optimizer ε σ} {p : Plan} {c : CompiledPlan} {s : State ε σ} {pending : Pending}
  {e : ExecutionError}

/-- Whether neither cache has rows of a compiled plan. -/
def Misses (o : Optimizer ε σ) (p : Plan) (c : CompiledPlan) (s : State ε σ) : Prop :=
  (o.cacheTtl p).isSome = true →
    s.request.get? (o.keyOf p c) = none ∧ (o.externalGet (o.keyOf p c) s).1 = none

variable (o p c s)

/-- A lookup comes to a hit in one of the caches unless neither has the rows. -/
theorem seek_fst :
    o.Misses p c s ∧ (o.seek p c s).1 =
        .miss ⟨c, (o.cacheTtl p).map fun ttl => (o.keyOf p c, ttl), s.request.generation⟩ ∨
      ¬ o.Misses p c s ∧ ∃ tier rows, (o.seek p c s).1 = .hit (hitReport tier c rows) := by
  unfold seek Misses
  cases o.cacheTtl p with
  | none => exact .inl ⟨nofun, rfl⟩
  | some ttl =>
    simp only [run_bind, run_get]
    cases requested : s.request.get? (o.keyOf p c) with
    | some rows => exact .inr ⟨fun misses => absurd (misses rfl).1 nofun, _, rows, rfl⟩
    | none =>
      simp only [run_bind]
      cases stored : (o.externalGet (o.keyOf p c) s).1 with
      | some rows => exact .inr ⟨fun misses => absurd (misses rfl).2 nofun, _, rows, rfl⟩
      | none => exact .inl ⟨fun _ => ⟨trivial, rfl⟩, rfl⟩

variable {o p c s}

/-- What is found in the store depends on nothing but the time. -/
theorem externalGet_congr {t : State ε σ} (key : String) (clock : t.clock = s.clock)
    (store : t.store = s.store) : (o.externalGet key t).1 = (o.externalGet key s).1 := by
  unfold externalGet
  cases o.store with
  | none => rfl
  | some ops =>
    simp only [run_bind, run_get, run_set, clock, store]
    rcases (ops.get s.clock key s.store).1 with _ | _ | text
    · rfl
    · rfl
    · dsimp only
      cases Rows.parse? text <;> rfl

variable (o p s)

/-- A run begins with the error of its plan, or else with the lookup of its rows. -/
theorem begin_fst :
    (∃ e, p.compile (o.compiler s.memo) = .error e ∧ (o.begin p s).1 = .failed e) ∨
    ∃ c, p.compile (o.compiler s.memo) = .ok c ∧
      (o.Misses p c s ∧ (o.begin p s).1 =
          .miss ⟨c, (o.cacheTtl p).map fun ttl => (o.keyOf p c, ttl), s.request.generation⟩ ∨
        ¬ o.Misses p c s ∧ ∃ tier rows, (o.begin p s).1 = .hit (hitReport tier c rows)) := by
  cases compiles : p.compile (o.compiler s.memo) with
  | error e =>
    rw [begin_of_error compiles]
    exact .inl ⟨e, rfl, rfl⟩
  | ok c =>
    have unread (key : String) :
        (o.externalGet key (Run.follow (p.trail (o.compiler s.memo)) s).2).1 = (o.externalGet key s).1 :=
      externalGet_congr key rfl rfl
    have sought := o.seek_fst p c (Run.follow (p.trail (o.compiler s.memo)) s).2
    unfold Misses at sought
    rw [unread] at sought
    rw [begin_of_compiled compiles]
    exact .inr ⟨c, rfl, sought⟩

variable {o p s}

/-- A run goes on to execute a plan that compiles if neither cache has its rows. -/
theorem begin_eq_miss_iff : (o.begin p s).1 = .miss pending ↔ ∃ c,
    p.compile (o.compiler s.memo) = .ok c ∧ o.Misses p c s ∧
      pending = ⟨c, (o.cacheTtl p).map fun ttl => (o.keyOf p c, ttl), s.request.generation⟩ := by
  rcases o.begin_fst p s with ⟨e, fails, start⟩ | ⟨c, compiles, ⟨misses, start⟩ | ⟨found, _, _, start⟩⟩
  · rw [start, fails]
    exact ⟨nofun, fun ⟨_, same, _⟩ => nomatch same⟩
  · rw [start, compiles]
    constructor
    · rintro same
      exact ⟨c, rfl, misses, (Begun.miss.inj same).symm⟩
    · rintro ⟨_, same, -, rfl⟩
      rw [Except.ok.inj same]
  · rw [start, compiles]
    constructor
    · rintro same
      cases same
    · rintro ⟨_, same, misses, -⟩
      rw [← Except.ok.inj same] at misses
      exact absurd misses found

/-- The journal of a run. -/
abbrev journal (o : Optimizer ε σ) (p : Plan) (s : State ε σ) : Journaled ε σ :=
  (o.journaled.run p s.opened).2

/-- What is sent to execute a compiled plan once its rows have not been found. -/
def tried (o : Optimizer ε σ) (p : Plan) (c : CompiledPlan) (s : State ε σ) : List Exchange :=
  Journaled.exchanges (o.journaled.execute p c (o.journaled.begin p s.opened).2).2

/-- Whether a compiled plan has to be executed, and a statement fails: the only one or the base statement,
or a later one whose failure is not skipped. -/
structure Unexecuted (o : Optimizer ε σ) (p : Plan) (c : CompiledPlan) (s : State ε σ)
    (e : ExecutionError) : Prop where
  compiles : p.compile (o.compiler s.memo) = .ok c
  misses : o.Misses p c s
  breaks : Breaks (o.tried p c s) e
  counts : (o.tried p c s).length = 1 ∨ o.config.splitFailure = .fail

/-- What the fallback loads after an execution. -/
def instead (o : Optimizer ε σ) (p : Plan) (c : CompiledPlan) (s : State ε σ) : Except QueryError Loaded :=
  ((Fallback.load o p (o.timeout p)).run
    (Run.note .fallingBack (o.execute p c (o.begin p s).2).2).2).1

theorem settles_error_iff {query : CompiledQuery} {sent : List Exchange}
    {result : Except ExecutionError (List Row × Report)} (settles : o.Settles query sent result) :
    result = .error e ↔ Breaks sent e ∧ (sent.length = 1 ∨ o.config.splitFailure = .fail) := by
  rcases result with e' | ⟨merged, report⟩
  · obtain ⟨breaks, -, counts⟩ := settles
    exact ⟨fun same => Except.error.inj same ▸ ⟨breaks, counts⟩,
      fun ⟨again, _⟩ => congrArg Except.error (breaks.unique again)⟩
  · obtain ⟨rows, later, rfl, -, -, complete⟩ := settles
    refine ⟨nofun, fun ⟨breaks, counts⟩ => ?_⟩
    rcases counts with one | fail
    · obtain ⟨first, same, failed⟩ := breaks.eq_one one
      rw [← (List.cons.inj same).1] at failed
      exact absurd failed Bool.false_ne_true
    · rcases complete with none | skip
      · exact absurd none (Nat.pos_iff_ne_zero.mp breaks.failures_pos)
      · exact absurd (fail.symm.trans skip) (by decide)

variable (o p c s)

/-- An execution without journal gives what the answers to its statements are made of. -/
theorem tried_settles : o.Settles c.query (o.tried p c s) (o.execute p c (o.begin p s).2).1 := by
  obtain ⟨-, start⟩ := o.journaled_twins.begin p s.opened s rfl
  obtain ⟨same, -⟩ := o.journaled_twins.execute p c _ _ start
  obtain ⟨unsent, -, -⟩ := o.begin_unsent p s.opened
  obtain ⟨sent, exchanges, settles⟩ := o.execute_settles p c (o.journaled.begin p s.opened).2
  have all : o.tried p c s = sent := by
    rw [tried, exchanges, unsent]
    rfl
  rw [all, ← same]
  exact settles

variable {o p c s}

/-- A run comes to a failed execution exactly if its statements fail. -/
theorem unexecuted_iff : o.Unexecuted p c s e ↔ ∃ pending, (o.begin p s).1 = .miss pending ∧
    pending.compiled = c ∧ (o.execute p c (o.begin p s).2).1 = .error e := by
  rw [settles_error_iff (o.tried_settles p c s)]
  constructor
  · rintro ⟨compiles, misses, breaks, counts⟩
    exact ⟨_, begin_eq_miss_iff.mpr ⟨c, compiles, misses, rfl⟩, rfl, breaks, counts⟩
  · rintro ⟨_, begun, same, breaks, counts⟩
    obtain ⟨_, compiles, misses, rfl⟩ := begin_eq_miss_iff.mp begun
    obtain rfl := same
    exact ⟨compiles, misses, breaks, counts⟩

theorem recover_exposed (off : o.safeMode p = false) (layout : Layout) (e : ExecutionError)
    (s : State ε σ) :
    o.recover p layout e s = (.error (.execution e), (Run.note .optimizedFailed s).2) := by
  rw [recover, off]
  rfl

theorem recover_safe (on : o.safeMode p = true) (layout : Layout) (e : ExecutionError)
    (s : State ε σ) :
    o.recover p layout e s =
      let (answer, t) := (Fallback.load o p (o.timeout p)).run (Run.note .fallingBack s).2
      (answer.map fun loaded => ⟨loaded.rows, layout, { usedFallback := true }⟩, t) := by
  rw [recover, on, if_pos rfl, run_bind, run_bind]
  rcases (Fallback.load o p (o.timeout p)).run (Run.note .fallingBack s).2 with ⟨_ | loaded, t⟩ <;> rfl

/-- What is executed is reported neither as found in a cache nor as loaded by the fallback. -/
theorem report_of_executed {rows : List Row} {report : Report}
    (executed : (o.execute p c (o.begin p s).2).1 = .ok (rows, report)) :
    report.cacheHit = none ∧ report.usedFallback = false := by
  have settles := o.tried_settles p c s
  rw [executed] at settles
  obtain ⟨-, -, -, -, rfl, -⟩ := settles
  exact ⟨rfl, rfl⟩

/-- A run that reports a hit found its rows when it began. -/
theorem begin_of_cacheHit {x : Execution} (answered : (o.run p s).1 = .ok x)
    (hit : x.report.cacheHit.isSome = true) : (o.begin p s).1 = .hit x := by
  cases start : (o.begin p s).1 with
  | failed e =>
    rw [run_of_failed start] at answered
    cases answered
  | hit found =>
    rw [run_of_hit start] at answered
    rw [Except.ok.inj answered]
  | miss pending =>
    exfalso
    cases executed : (o.execute p pending.compiled (o.begin p s).2).1 with
    | ok found =>
      rw [run_of_executed start executed] at answered
      rw [← Except.ok.inj answered, (report_of_executed executed).1] at hit
      exact Bool.false_ne_true hit
    | error e =>
      rw [run_of_unexecuted start executed] at answered
      cases mode : o.safeMode p with
      | false =>
        rw [recover_exposed mode] at answered
        cases answered
      | true =>
        rw [recover_safe mode] at answered
        obtain ⟨loaded, -, rfl⟩ := map_eq_ok_iff.mp answered
        exact Bool.false_ne_true hit

end Optimizer

/-- How a run deals with errors. What it keeps is described by its journal. -/
structure Optimizer.Disciplined (o : Optimizer ε σ) (p : Plan) (s : State ε σ) : Prop where
  /-- A plan that does not compile is answered why, and nothing is sent or kept. -/
  uncompiled : ∀ e, p.compile (o.compiler s.memo) = .error e →
    (o.run p s).1 = .error (.compile e) ∧ (o.journal p s).exchanges = [] ∧
      Journaled.Asks s.opened (o.journal p s)
  /-- Out of safe mode the error is the answer. The statement that failed is the last one that is sent. -/
  unrecovered : ∀ c e, o.Unexecuted p c s e → o.safeMode p = false →
    (o.run p s).1 = .error (.execution e) ∧ Breaks (o.journal p s).exchanges e ∧
      Journaled.Asks s.opened (o.journal p s)
  /-- In safe mode the answer is what the fallback loads, in the layout of the plan, or its error. -/
  recovered : ∀ c e, o.Unexecuted p c s e → o.safeMode p = true →
    (o.run p s).1 = (o.instead p c s).map (fun loaded =>
        ⟨loaded.rows, c.layout, { usedFallback := true }⟩) ∧
      Journaled.Asks s.opened (o.journal p s)
  only : ∀ error, (o.run p s).1 = .error error →
    (∃ e, p.compile (o.compiler s.memo) = .error e) ∨ ∃ c e, o.Unexecuted p c s e

namespace Optimizer

section Unexecuted

variable {o : Optimizer ε σ} {p : Plan} {c : CompiledPlan} {s : State ε σ} {e : ExecutionError}
  (fails : o.Unexecuted p c s e)
include fails

theorem run_of_fails :
    o.run p s = o.recover p c.layout e (o.execute p c (o.begin p s).2).2 := by
  obtain ⟨pending, begun, rfl, executed⟩ := unexecuted_iff.mp fails
  exact run_of_unexecuted begun executed

theorem journal_of_fails : o.journal p s = (o.journaled.recover p c.layout e
    (o.journaled.execute p c (o.journaled.begin p s.opened).2).2).2 := by
  obtain ⟨pending, begun, rfl, executed⟩ := unexecuted_iff.mp fails
  obtain ⟨answer, start⟩ := o.journaled_twins.begin p s.opened s rfl
  obtain ⟨result, -⟩ := o.journaled_twins.execute p pending.compiled _ _ start
  rw [journal, run_of_unexecuted (answer.trans begun) (result.trans executed)]

/-- A failed execution keeps nothing, whether or not the fallback comes after it. -/
theorem asks_of_fails : Journaled.Asks s.opened (o.journal p s) := by
  obtain ⟨pending, begun, rfl, -⟩ := unexecuted_iff.mp fails
  obtain ⟨answer, -⟩ := o.journaled_twins.begin p s.opened s rfl
  obtain ⟨-, -, started⟩ := o.begin_unsent p s.opened
  rw [answer.trans begun] at started
  rw [journal_of_fails fails]
  exact (started.1.trans (o.execute_asks p _ _)).trans (o.recover_asks p _ e _)

end Unexecuted

/-- Whatever fails in the run of a plan, its error reaches the caller unless the fallback comes in, nothing
is sent after it, and the caches are left alone. -/
theorem run_disciplined (o : Optimizer ε σ) (p : Plan) (s : State ε σ) : o.Disciplined p s := by
  constructor
  case uncompiled =>
    intro e uncompiled
    obtain ⟨unsent, -, begun⟩ := o.begin_unsent p s.opened
    have start : (o.begin p s).1 = .failed e := by rw [begin_of_error uncompiled]
    have journaled : (o.journaled.begin p s.opened).1 = .failed e :=
      (o.journaled_twins.begin p s.opened s rfl).1.trans start
    rw [journaled] at begun
    rw [run_of_failed start, journal, run_of_failed journaled]
    exact ⟨rfl, unsent, begun⟩
  case unrecovered =>
    intro c e fails off
    refine ⟨?_, ?_, asks_of_fails fails⟩
    · rw [run_of_fails fails, recover_exposed off]
    · rw [journal_of_fails fails, recover_exposed (o := o.journaled) off]
      exact fails.breaks
  case recovered =>
    intro c e fails on
    refine ⟨?_, asks_of_fails fails⟩
    rw [run_of_fails fails, recover_safe on]
    rfl
  case only =>
    intro error failed
    rcases o.begin_fst p s with ⟨e, uncompiled, -⟩ | ⟨c, -, ⟨-, start⟩ | ⟨-, tier, rows, start⟩⟩
    · exact .inl ⟨e, uncompiled⟩
    · cases executed : (o.execute p c (o.begin p s).2).1 with
      | error e => exact .inr ⟨c, e, unexecuted_iff.mpr ⟨_, start, rfl, executed⟩⟩
      | ok found =>
        rw [run_of_executed start executed] at failed
        cases failed
    · rw [run_of_hit start] at failed
      cases failed

end Optimizer

namespace Bookshelf

/-- The shelf with a store, where no statement is answered. -/
def silent : Optimizer Unit MemoryStore :=
  { config := optimizer.config
    registry := optimizer.registry
    executor := ⟨.sqlite, fun _ _ _ => { answer := .error (.timeout "5s"), next := () }⟩
    store := some MemoryStore.ops }

def exposed : Plan := { cached with safeMode := some false }

theorem silent_fails : silent.Unexecuted exposed whole fresh (.timeout "5s") := by
  have compiles : exposed.compile (silent.compiler fresh.memo) = .ok whole := compiled
  refine Optimizer.unexecuted_iff.mpr ⟨⟨whole, some (silent.keyOf exposed whole, .ofMillis 60000), 0⟩, ?_⟩
  have begun : silent.begin exposed fresh =
      (.miss ⟨whole, some (silent.keyOf exposed whole, .ofMillis 60000), 0⟩,
        (Run.follow (exposed.trail (silent.compiler [])) fresh).2) := by
    rw [Optimizer.begin_of_compiled compiles]
    rfl
  rw [begun]
  exact ⟨rfl, rfl, rfl⟩

end Bookshelf

open Bookshelf in
theorem Optimizer.run_disciplined_shelf :
    silent.Unexecuted exposed whole fresh (.timeout "5s") ∧ silent.safeMode exposed = false ∧
      (silent.run exposed fresh).1 = .error (.execution (.timeout "5s")) ∧
      Breaks (silent.journal exposed fresh).exchanges (.timeout "5s") ∧
      Journaled.Asks fresh.opened (silent.journal exposed fresh) :=
  ⟨silent_fails, rfl, (silent.run_disciplined exposed fresh).unrecovered _ _ silent_fails rfl⟩

end EagerLoad
