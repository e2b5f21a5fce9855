import EagerLoad.Proofs.Run.Cached
import EagerLoad.Proofs.Run.Journal
import EagerLoad.Proofs.Run.Split

/-! # What is kept of incomplete runs

A run gives rows to the caches only if its first statement was answered. A later batch that fails does not
keep it from doing so where failed batches are skipped: the rows are kept without the relations of the
batch. Otherwise nothing is kept of a run in which some statement failed. -/
namespace EagerLoad

/-- How many statements failed. -/
def failures (exchanges : List Exchange) : Nat := exchanges.countP Exchange.failed

theorem failures_cons_ok (statement : Statement) (rows : List Row) (later : List Exchange) :
    failures (⟨statement, .ok rows⟩ :: later) = failures later :=
  List.countP_cons_of_neg (by simp [Exchange.failed])

theorem failures_cons_error (statement : Statement) (e : ExecutionError) (later : List Exchange) :
    failures (⟨statement, .error e⟩ :: later) = failures later + 1 :=
  List.countP_cons_of_pos rfl

/-- Whether either tier was given rows that it did not have: the request cache has a new entry, or the store
was given some. -/
def State.Gained (s : State ε σ) (t : Journaled ε σ) : Prop :=
  t.given ≠ [] ∨ ∃ e ∈ t.request.entries, e ∉ s.request.entries

/-- Whether all statements were answered but the last one, which failed. -/
def Breaks (sent : List Exchange) (e : ExecutionError) : Prop :=
  ∃ answered statement, sent = answered ++ [⟨statement, .error e⟩] ∧ failures answered = 0

namespace Breaks

variable {sent : List Exchange} {e : ExecutionError}

theorem one (statement : Statement) (e : ExecutionError) : Breaks [⟨statement, .error e⟩] e :=
  ⟨[], statement, rfl, rfl⟩

theorem cons (breaks : Breaks sent e) (statement : Statement) (rows : List Row) :
    Breaks (⟨statement, .ok rows⟩ :: sent) e := by
  obtain ⟨answered, last, rfl, complete⟩ := breaks
  exact ⟨⟨statement, .ok rows⟩ :: answered, last, rfl, (failures_cons_ok _ _ _).trans complete⟩

theorem ne_nil (breaks : Breaks sent e) : sent ≠ [] := by
  obtain ⟨answered, last, rfl, -⟩ := breaks
  exact List.append_ne_nil_of_right_ne_nil _ (List.cons_ne_nil _ _)

/-- The only statement that is sent is the one that fails. -/
theorem eq_one (breaks : Breaks sent e) (one : sent.length = 1) :
    ∃ first, sent = [first] ∧ first.failed = true := by
  obtain ⟨answered, last, rfl, -⟩ := breaks
  rw [List.length_append] at one
  have none : answered = [] := List.eq_nil_of_length_eq_zero (Nat.succ.inj one)
  subst none
  exact ⟨_, rfl, rfl⟩

theorem failures_pos (breaks : Breaks sent e) : 0 < failures sent := by
  obtain ⟨answered, last, rfl, complete⟩ := breaks
  rw [failures, List.countP_append]
  exact Nat.lt_add_left _ (Nat.succ_pos _)

end Breaks

namespace CompiledQuery

/-- The later batches of a query. -/
def followUps : CompiledQuery → List FollowUp
  | single _ => []
  | split s => s.followUps

/-- The later batches that are sent once the base rows are there: none if these have no keys. -/
def due : CompiledQuery → List Row → List FollowUp
  | single _, _ => []
  | split s, rows => if (Rows.collectKeys rows s.primaryKey).isEmpty then [] else s.followUps

theorem length_due_le (query : CompiledQuery) (rows : List Row) :
    (query.due rows).length ≤ query.followUps.length := by
  unfold due
  split
  · exact Nat.zero_le _
  · split
    · exact Nat.zero_le _
    · exact Nat.le_refl _

end CompiledQuery

/-- What is left when statements were sent and nothing was kept: the store was given nothing, and the request
cache is as it was, unless a table was written to and it was cleared. -/
structure Journaled.Asks (s t : Journaled ε σ) : Prop where
  request : t.request = s.request ∨
    t.request.entries = [] ∧ s.request.generation < t.request.generation
  given : t.given = s.given
  exchanges : s.exchanges <+: t.exchanges

namespace Journaled.Asks

variable {s t u : Journaled ε σ}

theorem refl (s : Journaled ε σ) : Asks s s :=
  ⟨.inl rfl, rfl, List.prefix_refl _⟩

theorem trans (first : Asks s t) (second : Asks t u) : Asks s u where
  request := by
    rcases second.request with same | ⟨cleared, later⟩
    · rw [same]
      exact first.request
    · rcases first.request with same | ⟨-, earlier⟩
      · exact .inr ⟨cleared, same ▸ later⟩
      · exact .inr ⟨cleared, Nat.lt_trans earlier later⟩
  given := second.given.trans first.given
  exchanges := first.exchanges.trans second.exchanges

theorem not_gained {s : State ε σ} {t : Journaled ε σ} (asks : Asks s.opened t) : ¬ s.Gained t := by
  rintro (given | ⟨e, kept, new⟩)
  · exact given asks.given
  · rcases asks.request with same | ⟨cleared, -⟩
    · rw [same] at kept
      exact new kept
    · rw [cleared] at kept
      exact List.not_mem_nil kept

theorem note (n : Notice) : Maintains (Asks s) (Run.note n) :=
  fun _ asks => ⟨asks.request, asks.given, asks.exchanges⟩

theorem follow (draft : Sql.Draft) : Maintains (Asks s) (Run.follow draft) :=
  fun _ asks => ⟨asks.request, asks.given, asks.exchanges⟩

end Journaled.Asks

namespace Optimizer

variable (o : Optimizer ε σ)

theorem invalidateAll_asks (tables : List String) (s : Journaled ε σ) :
    Journaled.Asks s (o.journaled.invalidateAll tables s).2 ∧
      Journaled.exchanges (o.journaled.invalidateAll tables s).2 = s.exchanges := by
  induction tables generalizing s with
  | nil => exact ⟨.refl s, rfl⟩
  | cons table rest ih =>
    have one : Journaled.Asks s (o.journaled.invalidate table s).2 ∧
        Journaled.exchanges (o.journaled.invalidate table s).2 = s.exchanges := by
      unfold invalidate
      cases absent : o.store with
      | none =>
        simp only [journaled, absent, Option.map_none, run_bind, run_modify]
        exact ⟨⟨.inr ⟨rfl, Nat.lt_succ_self _⟩, rfl, List.prefix_refl _⟩, rfl⟩
      | some ops =>
        obtain ⟨read, put, flushTags, flush⟩ := ops
        simp only [journaled, absent, Option.map_some, run_bind, run_modify, run_get, run_set,
          StoreOps.journaled]
        generalize flushTags s.clock [table] s.store.1 = answer
        rcases answer with ⟨_ | _, store⟩
        · exact ⟨⟨.inr ⟨rfl, Nat.lt_succ_self _⟩, rfl, List.prefix_refl _⟩, rfl⟩
        · exact ⟨⟨.inr ⟨rfl, Nat.lt_succ_self _⟩, rfl, List.prefix_refl _⟩, rfl⟩
    have all := ih (o.journaled.invalidate table s).2
    exact ⟨one.1.trans all.1, all.2.trans one.2⟩

/-- A fetch adds its statement and its answer to the journal. -/
theorem fetch_exchanges (statement : Statement) (timeout : Option Duration) (s : Journaled ε σ) :
    Journaled.exchanges (o.journaled.fetch statement timeout s).2 =
      s.exchanges ++ [⟨statement, (o.journaled.fetch statement timeout s).1⟩] :=
  (o.invalidateAll_asks _ _).2

theorem fetch_asks (s : Journaled ε σ) (statement : Statement) (timeout : Option Duration) :
    Maintains (Journaled.Asks s) (o.journaled.fetch statement timeout) := by
  intro t asks
  have advanced : Journaled.Asks t { t with
      executor := (o.executor.journaled.fetch statement timeout t.executor).next } :=
    ⟨.inl rfl, rfl, List.prefix_append _ _⟩
  exact (asks.trans advanced).trans (o.invalidateAll_asks _ _).1

theorem execute_asks (p : Plan) (compiled : CompiledPlan) (s : Journaled ε σ) :
    Journaled.Asks s (o.journaled.execute p compiled s).2 :=
  Maintains.execute (o.fetch_asks s) .note p compiled s (.refl s)

theorem recover_asks (p : Plan) (layout : Layout) (e : ExecutionError) (s : Journaled ε σ) :
    Journaled.Asks s (o.journaled.recover p layout e s).2 :=
  Maintains.recover (o.fetch_asks s) .note .follow p layout e s (.refl s)

theorem fetchLogged_exchanges (statement : Statement) (timeout : Option Duration)
    (s : Journaled ε σ) :
    Journaled.exchanges (o.journaled.fetchLogged statement timeout s).2 =
      s.exchanges ++ [⟨statement, (o.journaled.fetchLogged statement timeout s).1⟩] := by
  unfold fetchLogged logStatement
  split
  · exact o.fetch_exchanges statement timeout _
  · exact o.fetch_exchanges statement timeout s

/-- What the batches after the first make of the answers to their statements: all of them are sent, and
failed ones are skipped and counted, or the first that fails is the end. -/
def Tallies (followUps : List FollowUp) (earlier : Report) (later : List Exchange) :
    Except ExecutionError (List Row × Report) → Prop
  | .ok (_, report) => later.length = followUps.length ∧
      report = { earlier with
        statements := earlier.statements + later.length
        failedBatches := earlier.failedBatches + failures later } ∧
      (failures later = 0 ∨ o.config.splitFailure = .skip)
  | .error e => Breaks later e ∧ later.length ≤ followUps.length ∧ o.config.splitFailure = .fail

section Tallies

variable {o} {batch : FollowUp} {rest : List FollowUp} {earlier : Report} {later : List Exchange}
  {result : Except ExecutionError (List Row × Report)} (statement : Statement)

theorem tallies_answered (incoming : List Row)
    (tallies : o.Tallies rest { earlier with statements := earlier.statements + 1 } later result) :
    o.Tallies (batch :: rest) earlier (⟨statement, .ok incoming⟩ :: later) result := by
  rcases result with e | ⟨rows, report⟩
  · obtain ⟨breaks, length, policy⟩ := tallies
    exact ⟨breaks.cons statement incoming, Nat.succ_le_succ length, policy⟩
  · obtain ⟨length, rfl, complete⟩ := tallies
    refine ⟨congrArg (· + 1) length, ?_, ?_⟩
    · rw [failures_cons_ok, List.length_cons, Nat.add_comm later.length, ← Nat.add_assoc]
    · rw [failures_cons_ok]
      exact complete

theorem tallies_skipped (e : ExecutionError) (policy : o.config.splitFailure = .skip)
    (tallies : o.Tallies rest
      { earlier with
        statements := earlier.statements + 1
        failedBatches := earlier.failedBatches + 1 } later result) :
    o.Tallies (batch :: rest) earlier (⟨statement, .error e⟩ :: later) result := by
  rcases result with e | ⟨rows, report⟩
  · exact absurd (policy.symm.trans tallies.2.2) (by decide)
  · obtain ⟨length, rfl, -⟩ := tallies
    refine ⟨congrArg (· + 1) length, ?_, .inr policy⟩
    rw [failures_cons_error, List.length_cons, Nat.add_comm later.length, ← Nat.add_assoc,
      Nat.add_comm (failures later), ← Nat.add_assoc]

end Tallies

/-- How the batches after the first go: what each of them is answered, and what becomes of the rows and the
report. -/
inductive Batches (o : Optimizer ε σ) (key : String) (keys : List DbValue) :
    List FollowUp → List Row → Report → List Exchange → Except ExecutionError (List Row × Report) →
      Prop where
  | done {rows : List Row} {report : Report} : Batches o key keys [] rows report [] (.ok (rows, report))
  | answered {batch : FollowUp} {rest : List FollowUp} {rows incoming : List Row} {report : Report}
      {later : List Exchange} {result : Except ExecutionError (List Row × Report)}
      (others : Batches o key keys rest (Rows.merge rows incoming key batch.relations)
        { report with statements := report.statements + 1 } later result) :
      Batches o key keys (batch :: rest) rows report
        (⟨batch.bind o.executor.dialect keys, .ok incoming⟩ :: later) result
  | skipped {batch : FollowUp} {rest : List FollowUp} {rows : List Row} {report : Report}
      {later : List Exchange} {result : Except ExecutionError (List Row × Report)} (e : ExecutionError)
      (policy : o.config.splitFailure = .skip)
      (others : Batches o key keys rest rows
        { report with
          statements := report.statements + 1
          failedBatches := report.failedBatches + 1 } later result) :
      Batches o key keys (batch :: rest) rows report
        (⟨batch.bind o.executor.dialect keys, .error e⟩ :: later) result
  | stopped {batch : FollowUp} {rest : List FollowUp} {rows : List Row} {report : Report}
      (e : ExecutionError) (policy : o.config.splitFailure = .fail) :
      Batches o key keys (batch :: rest) rows report
        [⟨batch.bind o.executor.dialect keys, .error e⟩] (.error e)

theorem executeBatches_batches (key : String) (keys : List DbValue) (timeout : Option Duration)
    (followUps : List FollowUp) (rows : List Row) (report : Report) (s : Journaled ε σ) :
    ∃ later,
      Journaled.exchanges (o.journaled.executeBatches key keys timeout followUps rows report s).2 =
        s.exchanges ++ later ∧
      o.Batches key keys followUps rows report later
        (o.journaled.executeBatches key keys timeout followUps rows report s).1 := by
  induction followUps generalizing rows report s with
  | nil => exact ⟨[], (List.append_nil _).symm, .done⟩
  | cons batch rest ih =>
    rw [executeBatches, run_bind]
    have dialect : o.journaled.executor.dialect = o.executor.dialect := rfl
    have sent := o.fetchLogged_exchanges (batch.bind o.executor.dialect keys) timeout s
    rw [dialect]
    generalize o.journaled.fetchLogged (batch.bind o.executor.dialect keys) timeout s = answer at sent ⊢
    rcases answer with ⟨e | incoming, t⟩
    · have setting : o.journaled.config.splitFailure = o.config.splitFailure := rfl
      dsimp only
      rw [setting]
      cases policy : o.config.splitFailure with
      | fail => exact ⟨_, sent, .stopped e policy⟩
      | skip =>
        dsimp only
        rw [run_bind]
        obtain ⟨later, exchanges, others⟩ := ih rows
          { report with
            statements := report.statements + 1
            failedBatches := report.failedBatches + 1 } (Run.note .batchFailed t).2
        refine ⟨_, ?_, .skipped e policy others⟩
        rw [List.append_cons, ← sent]
        exact exchanges
    · obtain ⟨later, exchanges, others⟩ := ih (Rows.merge rows incoming key batch.relations)
        { report with statements := report.statements + 1 } t
      refine ⟨_, ?_, .answered others⟩
      rw [List.append_cons, ← sent]
      exact exchanges

/-- A row without the key by which it was merged, unless the plan asks for it. -/
def strip (p : Plan) (key : String) (row : Row) : Row :=
  if asksFor p key then row else row.remove key

/-- A split plan is at its end when its base statement fails. Otherwise the batches that are due are sent,
and what they give is stripped of the key. -/
theorem executeSplit_batches (p : Plan) (split : Split) (timeout : Option Duration) (s : Journaled ε σ) :
    (∃ e, (o.executor.fetch split.base timeout s.executor.1).answer = .error e ∧
      Journaled.exchanges (o.journaled.executeSplit p split timeout s).2 =
        s.exchanges ++ [⟨split.base, .error e⟩] ∧
      (o.journaled.executeSplit p split timeout s).1 = .error e) ∨
    ∃ rows later result, (o.executor.fetch split.base timeout s.executor.1).answer = .ok rows ∧
      Journaled.exchanges (o.journaled.executeSplit p split timeout s).2 =
        s.exchanges ++ ⟨split.base, .ok rows⟩ :: later ∧
      o.Batches split.primaryKey (Rows.collectKeys rows split.primaryKey)
        ((CompiledQuery.split split).due rows) rows
        { statements := 1, splitBatches := split.followUps.length } later result ∧
      (o.journaled.executeSplit p split timeout s).1 =
        result.map fun done => (done.1.map (strip p split.primaryKey), done.2) := by
  have answer := o.journaled.fetchLogged_answer split.base timeout s
  have sent := o.fetchLogged_exchanges split.base timeout s
  have same : (o.journaled.executor.fetch split.base timeout s.executor).answer =
    (o.executor.fetch split.base timeout s.executor.1).answer := rfl
  rw [executeSplit, run_bind, ← same, ← answer]
  generalize o.journaled.fetchLogged split.base timeout s = fetched at sent ⊢
  rcases fetched with ⟨e | rows, t⟩
  · exact .inl ⟨e, rfl, sent, rfl⟩
  · obtain ⟨later, exchanges, batches⟩ := o.executeBatches_batches split.primaryKey
      (Rows.collectKeys rows split.primaryKey) timeout ((CompiledQuery.split split).due rows) rows
      { statements := 1, splitBatches := split.followUps.length } t
    have due : (if (Rows.collectKeys rows split.primaryKey).isEmpty then [] else split.followUps) =
      (CompiledQuery.split split).due rows := rfl
    have earlier : Journaled.exchanges t = s.exchanges ++ [⟨split.base, .ok rows⟩] := sent
    rw [earlier, List.append_assoc] at exchanges
    dsimp only
    rw [run_bind, due]
    refine .inr ⟨rows, later, _, rfl, ?_, batches, ?_⟩
    · generalize o.journaled.executeBatches _ _ _ _ _ _ _ = executed at exchanges ⊢
      rcases executed with ⟨_ | _, u⟩ <;> exact exchanges
    · generalize o.journaled.executeBatches _ _ _ _ _ _ _ = executed
      rcases executed with ⟨e | ⟨merged, done⟩, u⟩
      · rfl
      · have stripped : (if asksFor p split.primaryKey then merged
            else merged.map fun row => row.remove split.primaryKey) =
            merged.map (strip p split.primaryKey) := by
          unfold strip
          split <;> simp
        exact congrArg (fun rows => Except.ok (rows, done)) stripped

variable {o} in
theorem Batches.tallies {key : String} {keys : List DbValue} {followUps : List FollowUp} {rows : List Row}
    {report : Report} {later : List Exchange} {result : Except ExecutionError (List Row × Report)}
    (batches : o.Batches key keys followUps rows report later result) :
    o.Tallies followUps report later result := by
  induction batches with
  | done => exact ⟨rfl, rfl, .inl rfl⟩
  | answered _ ih => exact tallies_answered _ _ ih
  | skipped e policy _ ih => exact tallies_skipped _ e policy ih
  | stopped e policy => exact ⟨Breaks.one _ e, Nat.le_add_left 1 _, policy⟩

/-- Whether the rows of a run are kept: all its statements were answered, or the first one was and failed
batches are skipped. -/
def Accepts (exchanges : List Exchange) : Prop :=
  failures exchanges = 0 ∨ (o.config.splitFailure = .skip ∧
    ∃ first later, exchanges = first :: later ∧ first.failed = false)

/-- An execution gives rows exactly if the answers to its statements are accepted. -/
def Reports (sent : List Exchange) : Except ExecutionError (List Row × Report) → Prop
  | .ok (_, report) =>
    report.usedFallback = false ∧ report.failedBatches = failures sent ∧ o.Accepts sent
  | .error _ => ∀ more, ¬ o.Accepts (sent ++ more)

variable {o}

theorem not_accepts_of_failed {first : Exchange} {later : List Exchange} (failed : first.failed = true) :
    ¬ o.Accepts (first :: later) := by
  rintro (none | ⟨-, other, rest, same, answered⟩)
  · rw [failures, List.countP_cons_of_pos failed] at none
    exact absurd none (Nat.succ_ne_zero _)
  · rw [(List.cons.inj same).1, answered] at failed
    exact Bool.false_ne_true failed

theorem not_accepts_of_fail {sent : List Exchange} (some : 0 < failures sent)
    (policy : o.config.splitFailure = .fail) (more : List Exchange) : ¬ o.Accepts (sent ++ more) := by
  rintro (none | ⟨skip, -⟩)
  · rw [failures, List.countP_append] at none
    unfold failures at some
    omega
  · exact absurd (policy.symm.trans skip) (by decide)

variable (o)

/-- What an execution makes of the answers to its statements: all that are due are sent and reported, or one
that may not be skipped is the last. -/
def Settles (query : CompiledQuery) (sent : List Exchange) :
    Except ExecutionError (List Row × Report) → Prop
  | .ok (_, report) => ∃ rows later, sent = ⟨query.base, .ok rows⟩ :: later ∧
      later.length = (query.due rows).length ∧
      report =
        { statements := sent.length
          splitBatches := query.followUps.length
          failedBatches := failures sent } ∧
      (failures sent = 0 ∨ o.config.splitFailure = .skip)
  | .error e => Breaks sent e ∧ sent.length ≤ query.followUps.length + 1 ∧
      (sent.length = 1 ∨ o.config.splitFailure = .fail)

theorem execute_settles (p : Plan) (compiled : CompiledPlan) (s : Journaled ε σ) :
    ∃ sent, Journaled.exchanges (o.journaled.execute p compiled s).2 = s.exchanges ++ sent ∧
      o.Settles compiled.query sent (o.journaled.execute p compiled s).1 := by
  unfold execute
  rcases compiled with ⟨statement | split, layout, subqueries⟩
  · show ∃ sent,
      Journaled.exchanges (o.journaled.executeSingle statement (o.journaled.timeout p) s).2 = _ ∧
      o.Settles (.single statement) sent
        (o.journaled.executeSingle statement (o.journaled.timeout p) s).1
    rw [executeSingle, run_bind]
    have sent := o.fetchLogged_exchanges statement (o.journaled.timeout p) s
    generalize o.journaled.fetchLogged statement (o.journaled.timeout p) s = answered at sent ⊢
    rcases answered with ⟨e | rows, t⟩
    · exact ⟨_, sent, Breaks.one statement e, Nat.le_refl _, .inl rfl⟩
    · exact ⟨_, sent, rows, [], rfl, rfl, rfl, .inl rfl⟩
  · show ∃ sent,
      Journaled.exchanges (o.journaled.executeSplit p split (o.journaled.timeout p) s).2 = _ ∧
      o.Settles (.split split) sent (o.journaled.executeSplit p split (o.journaled.timeout p) s).1
    obtain ⟨e, -, sent, result⟩ | ⟨rows, later, result, -, sent, batches, same⟩ :=
      o.executeSplit_batches p split (o.journaled.timeout p) s
    · rw [result]
      exact ⟨_, sent, Breaks.one split.base e, Nat.le_add_left 1 _, .inl rfl⟩
    · have tallies := batches.tallies
      refine ⟨⟨split.base, .ok rows⟩ :: later, sent, ?_⟩
      rw [same]
      rcases result with e | ⟨merged, report⟩
      · obtain ⟨breaks, length, policy⟩ := tallies
        have fewer := Nat.le_trans length ((CompiledQuery.split split).length_due_le rows)
        exact ⟨breaks.cons split.base rows, Nat.succ_le_succ fewer, .inr policy⟩
      · obtain ⟨length, rfl, complete⟩ := tallies
        refine ⟨rows, later, rfl, length, ?_, ?_⟩
        · rw [failures_cons_ok, List.length_cons, Nat.add_comm later.length]
          dsimp only
          rw [Nat.zero_add]
          rfl
        · rw [failures_cons_ok]
          exact complete

theorem execute_reports (p : Plan) (compiled : CompiledPlan) (s : Journaled ε σ) :
    ∃ sent, sent ≠ [] ∧
      Journaled.exchanges (o.journaled.execute p compiled s).2 = s.exchanges ++ sent ∧
      o.Reports sent (o.journaled.execute p compiled s).1 := by
  obtain ⟨sent, exchanges, settles⟩ := o.execute_settles p compiled s
  generalize (o.journaled.execute p compiled s).1 = result at settles ⊢
  rcases result with e | ⟨merged, report⟩
  · obtain ⟨breaks, -, only⟩ := settles
    refine ⟨sent, breaks.ne_nil, exchanges, fun more => ?_⟩
    rcases only with one | policy
    · obtain ⟨first, rfl, failed⟩ := breaks.eq_one one
      exact not_accepts_of_failed failed
    · exact not_accepts_of_fail breaks.failures_pos policy more
  · obtain ⟨rows, later, rfl, -, rfl, complete⟩ := settles
    refine ⟨_, List.cons_ne_nil _ _, exchanges, rfl, rfl, ?_⟩
    rcases complete with none | skip
    · exact .inl none
    · exact .inr ⟨skip, _, _, rfl, rfl⟩

/-- Reading the store sends nothing and gives it nothing. -/
theorem externalGet_asks (key : String) (s : Journaled ε σ) :
    Journaled.Asks s (o.journaled.externalGet key s).2 ∧
      Journaled.exchanges (o.journaled.externalGet key s).2 = s.exchanges := by
  unfold externalGet
  cases absent : o.store with
  | none =>
    simp only [journaled, absent, Option.map_none]
    exact ⟨.refl s, rfl⟩
  | some ops =>
    obtain ⟨read, put, flushTags, flush⟩ := ops
    simp only [journaled, absent, Option.map_some, run_bind, run_get, run_set, StoreOps.journaled]
    generalize read s.clock key s.store.1 = answer
    have unchanged (store : σ) (notices : List Notice) :
        Journaled.Asks s { s with store := (store, s.store.2), notices } :=
      ⟨.inl rfl, rfl, List.prefix_refl _⟩
    rcases answer with ⟨_ | _ | text, store⟩
    · exact ⟨unchanged store _, rfl⟩
    · exact ⟨unchanged store _, rfl⟩
    · dsimp only
      cases Rows.parse? text with
      | none => exact ⟨unchanged store _, rfl⟩
      | some rows => exact ⟨unchanged store _, rfl⟩

end Optimizer

/-- What has become of the journal and the request cache when a run has begun: nothing was sent, and
nothing was kept unless there was a hit. -/
def Begun.Unsent (o : Optimizer ε σ) (p : Plan) (s t : Journaled ε σ) : Begun → Prop
  | .failed _ => Journaled.Asks s t
  | .hit x => x.report.usedFallback = false ∧ x.report.failedBatches = 0
  | .miss pending => Journaled.Asks s t ∧ pending.cacheAs.isSome = (o.cacheTtl p).isSome

namespace Optimizer

variable (o : Optimizer ε σ)

theorem begin_unsent (p : Plan) (s : Journaled ε σ) :
    Journaled.exchanges (o.journaled.begin p s).2 = s.exchanges ∧
      Journaled.given (o.journaled.begin p s).2 = s.given ∧
      (o.journaled.begin p s).1.Unsent o p s (o.journaled.begin p s).2 := by
  have followed : Journaled.Asks s (Run.follow (p.trail (o.journaled.compiler s.memo)) s).2 :=
    .follow _ s (.refl s)
  cases compiled : p.compile (o.journaled.compiler s.memo) with
  | error e =>
    rw [begin_of_error compiled]
    exact ⟨rfl, rfl, followed⟩
  | ok c =>
    rw [begin_of_compiled compiled]
    have setting : o.journaled.cacheTtl p = o.cacheTtl p := rfl
    unfold seek
    rw [setting]
    cases ttl : o.cacheTtl p with
    | none => exact ⟨rfl, rfl, followed, by rw [ttl]; rfl⟩
    | some ttl' =>
      simp only [run_bind, run_get]
      cases (Run.follow (p.trail (o.journaled.compiler s.memo)) s).2.request.get?
          (o.journaled.keyOf p c) with
      | some rows => exact ⟨rfl, rfl, rfl, rfl⟩
      | none =>
        have looked := o.externalGet_asks (o.journaled.keyOf p c)
          (Run.follow (p.trail (o.journaled.compiler s.memo)) s).2
        simp only [run_bind]
        generalize o.journaled.externalGet (o.journaled.keyOf p c)
          (Run.follow (p.trail (o.journaled.compiler s.memo)) s).2 = answer at looked ⊢
        rcases answer with ⟨_ | rows, t⟩
        · exact ⟨looked.2, looked.1.given, followed.trans looked.1, by rw [ttl]; rfl⟩
        · exact ⟨looked.2, looked.1.given, rfl, rfl⟩

/-- Publishing gives the store the text of the rows and sends nothing. -/
theorem publish_journal (p : Plan) (pending : Pending) (rows : List Row) (s : Journaled ε σ) :
    Journaled.exchanges (o.journaled.publish p pending rows s).2 = s.exchanges ∧
      (o.store.isSome = true → pending.cacheAs.isSome = true →
        Journaled.given (o.journaled.publish p pending rows s).2 ≠ []) := by
  unfold publish
  cases pending.cacheAs with
  | none => exact ⟨rfl, fun _ none => absurd none Bool.false_ne_true⟩
  | some entry =>
    obtain ⟨key, ttl⟩ := entry
    have put : Journaled.exchanges (requestPut key rows pending.generation s).2 = s.exchanges := rfl
    simp only [run_bind]
    generalize (requestPut key rows pending.generation s).2 = t at put ⊢
    unfold externalPut
    cases absent : o.store with
    | none =>
      simp only [journaled, absent, Option.map_none]
      exact ⟨put, fun none => absurd none Bool.false_ne_true⟩
    | some ops =>
      obtain ⟨read, write, flushTags, flush⟩ := ops
      simp only [journaled, absent, Option.map_some, run_bind, run_get, run_set, StoreOps.journaled]
      generalize write t.clock key (Rows.text rows) (some ttl) (cacheTags p) t.store.1 = answer
      rcases answer with ⟨_ | _, store⟩
      · exact ⟨put, fun _ _ => List.append_ne_nil_of_right_ne_nil _ (List.cons_ne_nil _ _)⟩
      · exact ⟨put, fun _ _ => List.append_ne_nil_of_right_ne_nil _ (List.cons_ne_nil _ _)⟩

/-- Rows are kept only if the answers to all statements of their run are accepted: they are complete but
for the failed batches that its report counts, and not from the fallback. Where rows are cached at all, such
rows are given to the store. -/
theorem keeps_accepted_runs (p : Plan) (s : State ε σ) :
    (s.Gained (o.journaled.run p s.opened).2 →
      o.Accepts (Journaled.exchanges (o.journaled.run p s.opened).2) ∧
      ∃ x, (o.run p s).1 = .ok x ∧ x.report.usedFallback = false ∧
        x.report.failedBatches = failures (Journaled.exchanges (o.journaled.run p s.opened).2)) ∧
    (o.store.isSome = true → (o.cacheTtl p).isSome = true →
      Journaled.exchanges (o.journaled.run p s.opened).2 ≠ [] →
      o.Accepts (Journaled.exchanges (o.journaled.run p s.opened).2) →
      Journaled.given (o.journaled.run p s.opened).2 ≠ []) := by
  have same : (o.journaled.run p s.opened).1 = (o.run p s).1 := (o.mirrors_run p s.opened).1
  rw [← same]
  obtain ⟨unsent, -, begun⟩ := o.begin_unsent p s.opened
  cases start : (o.journaled.begin p s.opened).1 with
  | failed e =>
    rw [start] at begun
    rw [run_of_failed start]
    exact ⟨fun gained => absurd gained begun.not_gained, fun _ _ some => absurd unsent some⟩
  | hit x =>
    rw [start] at begun
    rw [run_of_hit start, unsent]
    exact ⟨fun _ => ⟨.inl rfl, x, rfl, begun⟩, fun _ _ some => absurd rfl some⟩
  | miss pending =>
    rw [start] at begun
    obtain ⟨begun, cached⟩ := begun
    obtain ⟨sent, some, exchanges, reports⟩ :=
      o.execute_reports p pending.compiled (o.journaled.begin p s.opened).2
    rw [unsent] at exchanges
    have asked := begun.trans
      (o.execute_asks p pending.compiled (o.journaled.begin p s.opened).2)
    cases executed : (o.journaled.execute p pending.compiled (o.journaled.begin p s.opened).2).1 with
    | error e =>
      rw [executed] at reports
      rw [run_of_unexecuted start executed]
      have recovered := o.recover_asks p pending.compiled.layout e
        (o.journaled.execute p pending.compiled (o.journaled.begin p s.opened).2).2
      obtain ⟨more, longer⟩ := recovered.exchanges
      rw [exchanges] at longer
      refine ⟨fun gained => absurd gained (asked.trans recovered).not_gained, ?_⟩
      intro _ _ _ accepted
      rw [← longer] at accepted
      exact absurd accepted (reports more)
    | ok found =>
      obtain ⟨rows, report⟩ := found
      rw [executed] at reports
      rw [run_of_executed start executed]
      obtain ⟨fallback, counted, accepts⟩ := reports
      have published := o.publish_journal p pending rows
        (o.journaled.execute p pending.compiled (o.journaled.begin p s.opened).2).2
      have all : Journaled.exchanges (o.journaled.publish p pending rows
          (o.journaled.execute p pending.compiled (o.journaled.begin p s.opened).2).2).2 = sent :=
        published.1.trans exchanges
      rw [all]
      refine ⟨fun _ => ⟨accepts, _, rfl, fallback, counted⟩, ?_⟩
      intro storing caching _ _
      exact published.2 storing (cached.trans caching)

end Optimizer

namespace Bookshelf

/-- The shelf with a store, where the statement for the awards is not answered. -/
def flaky : Optimizer Unit MemoryStore :=
  { config := optimizer.config
    registry := optimizer.registry
    executor := ⟨.sqlite, fun statement _ _ =>
      { answer := if statement.bindings.isEmpty then .ok baseRows else .error (.timeout "5s"), next := () }⟩
    store := some MemoryStore.ops }

def cached : Plan := { authors with cache := { ttl := some (.ofMillis 60000) } }

def fresh : State Unit MemoryStore := { executor := (), store := {} }

def whole : CompiledPlan := ⟨.split split, [⟨"books", .many⟩, ⟨"awards", .many⟩], 2⟩

def left : Journaled Unit MemoryStore := (flaky.journaled.run cached fresh.opened).2

def pending : Pending :=
  ⟨whole, some (flaky.keyOf cached whole, .ofMillis 60000), 0⟩

theorem begun : flaky.journaled.begin cached fresh.opened =
    (.miss pending, (Run.follow (cached.trail (flaky.journaled.compiler [])) fresh.opened).2) := by
  have same : cached.compile (flaky.journaled.compiler fresh.opened.memo) = .ok whole := compiled
  rw [Optimizer.begin_of_compiled same]
  rfl

theorem executed : (flaky.journaled.execute cached whole (flaky.journaled.begin cached fresh.opened).2).1 =
    .ok (baseRows.map fun row => row.remove "id",
      { statements := 2, splitBatches := 1, failedBatches := 1 }) := by
  rw [begun]
  rfl

/-- The rows without awards were given to the store though one of the two statements failed. -/
theorem left_journal : left.given ≠ [] ∧ failures left.exchanges = 1 := by
  have start : (flaky.journaled.begin cached fresh.opened).1 = .miss pending := by rw [begun]
  unfold left
  rw [Optimizer.run_of_executed start executed]
  constructor
  · exact (flaky.publish_journal cached pending _ _).2 rfl rfl
  · rw [(flaky.publish_journal cached pending _ _).1, begun]
    rfl

theorem left_accepted : flaky.Accepts left.exchanges := by
  have start : (flaky.journaled.begin cached fresh.opened).1 = .miss pending := by rw [begun]
  unfold left
  rw [Optimizer.run_of_executed start executed, (flaky.publish_journal cached pending _ _).1, begun]
  exact .inr ⟨rfl, _, _, rfl, rfl⟩

end Bookshelf

open Bookshelf in
theorem keeps_accepted_runs_shelf :
    fresh.Gained left ∧ left.exchanges ≠ [] ∧
      (∃ x, (flaky.run cached fresh).1 = .ok x ∧ x.report.usedFallback = false ∧
        x.report.failedBatches = failures left.exchanges) ∧ left.given ≠ [] := by
  have gained : fresh.Gained left := .inl left_journal.1
  have sent : left.exchanges ≠ [] := by
    intro none
    have one := left_journal.2
    rw [none] at one
    exact absurd one (by decide)
  have keeps := flaky.keeps_accepted_runs cached fresh
  exact ⟨gained, sent, (keeps.1 gained).2, keeps.2 rfl rfl sent left_accepted⟩

/-- Whether a run that keeps its rows had all its statements answered. -/
def Optimizer.OnlyComplete (o : Optimizer ε σ) (p : Plan) (s : State ε σ) : Prop :=
  s.Gained (o.journaled.run p s.opened).2 →
    failures (Journaled.exchanges (o.journaled.run p s.opened).2) = 0

open Bookshelf in
/-- The authors are kept without their awards. -/
theorem not_onlyComplete_shelf : ¬ flaky.OnlyComplete cached fresh := by
  intro complete
  have none : failures left.exchanges = 0 := complete (.inl left_journal.1)
  rw [left_journal.2] at none
  exact absurd none (by decide)

end EagerLoad
