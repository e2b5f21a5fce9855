import Mathlib.Data.List.Flatten
import EagerLoad.Proofs.Query.Labels
import EagerLoad.Proofs.Row.Batches
import EagerLoad.Proofs.Run.Counted

/-! # Batches that fail

Where failed batches are skipped a split plan gives its base rows with the answers to the other batches,
merged in order as if the failed ones had not been sent; their relations decode to empty values. Otherwise
the first batch that fails is the last one that is sent, and its error is the result. -/
namespace EagerLoad

namespace Decode

theorem value_empty (shape other : Shape) : (value shape other.empty).1 = shape.empty := by
  cases shape <;> cases other <;> rfl

/-- A slot whose column is absent, or holds an empty value already, decodes to an empty value. -/
theorem row_empty {label : String} (layout : Layout) (r : Row)
    (hollow : ∀ v, r.get? label = some v → ∃ shape : Shape, v = shape.empty)
    (listed : label ∈ layout.map Slot.label) :
    ∃ s ∈ layout, s.label = label ∧ (row layout r).1.get? label = some s.shape.empty := by
  induction layout generalizing r with
  | nil => exact absurd listed List.not_mem_nil
  | cons s rest ih =>
    by_cases later : label ∈ rest.map Slot.label
    · have hollow' : ∀ v, (slot r s).1.get? label = some v → ∃ shape : Shape, v = shape.empty := by
        intro v held
        rw [slot, Row.get?_set] at held
        split at held
        · rename_i same
          rw [← same] at held
          cases column : r.get? label with
          | none =>
            rw [column] at held
            exact ⟨s.shape, (Option.some.inj held).symm⟩
          | some w =>
            obtain ⟨shape, rfl⟩ := hollow w column
            rw [column] at held
            exact ⟨s.shape, by rw [← Option.some.inj held, value_empty]⟩
        · exact hollow v held
      obtain ⟨t, known, named, decoded⟩ := ih _ hollow' later
      exact ⟨t, List.mem_cons_of_mem s known, named, decoded⟩
    · obtain rfl : label = s.label := (List.mem_cons.mp listed).resolve_right later
      refine ⟨s, List.mem_cons_self, rfl, ?_⟩
      have kept : (row rest (slot r s).1).1.get? s.label = (slot r s).1.get? s.label :=
        (row_sameBut rest _ s.label later).symm
      refine kept.trans ?_
      rw [slot, Row.get?_set, if_pos rfl]
      cases column : r.get? s.label with
      | none => rfl
      | some w =>
        obtain ⟨shape, rfl⟩ := hollow w column
        exact congrArg some (value_empty _ _)

end Decode

namespace FollowUp

/-- The batches that were answered: their relations and the rows of the answers. -/
def answered (followUps : List FollowUp) (later : List Exchange) : List (List String × List Row) :=
  (followUps.zip later).filterMap fun (batch, x) => x.answer.toOption.map (batch.relations, ·)

/-- The relations of the batches that failed. -/
def lacking (followUps : List FollowUp) (later : List Exchange) : List String :=
  ((followUps.zip later).filter (·.2.failed)).flatMap (·.1.relations)

/-- Every batch that was sent either brings its relations or lacks them. -/
theorem brought_append_lacking (followUps : List FollowUp) (later : List Exchange) :
    (Rows.brought (answered followUps later) ++ lacking followUps later).Perm
      ((followUps.take later.length).flatMap FollowUp.relations) := by
  induction followUps generalizing later with
  | nil => simp [answered, lacking, Rows.brought]
  | cons batch rest ih =>
    rcases later with _ | ⟨⟨statement, e | incoming⟩, later⟩
    · simp [answered, lacking, Rows.brought]
    · have brought : answered (batch :: rest) (⟨statement, .error e⟩ :: later) = answered rest later := rfl
      have more : lacking (batch :: rest) (⟨statement, .error e⟩ :: later) =
        batch.relations ++ lacking rest later := rfl
      rw [brought, more, List.length_cons, List.take_succ_cons, List.flatMap_cons]
      exact (List.perm_append_comm_assoc _ _ _).trans ((ih later).append_left _)
    · have more : answered (batch :: rest) (⟨statement, .ok incoming⟩ :: later) =
        (batch.relations, incoming) :: answered rest later := rfl
      have lacks : lacking (batch :: rest) (⟨statement, .ok incoming⟩ :: later) = lacking rest later := rfl
      rw [more, lacks, Rows.brought, List.flatMap_cons, List.append_assoc, List.length_cons,
        List.take_succ_cons, List.flatMap_cons]
      exact (ih later).append_left _

end FollowUp

/-- No relation of a query is in two of its batches, so none of a failed batch is in an answered one. -/
theorem QueryCall.batches_apart {e : Entity} {calls : List QueryCall} {c : Compiler} {split : Split}
    (written : (build e calls).split c = .ok split) (later : List Exchange) :
    (Rows.brought (FollowUp.answered split.followUps later) ++
      FollowUp.lacking split.followUps later).Nodup := by
  have labels : ((build e calls).relations.map RelationRequest.label).Nodup :=
    relations_build e calls ▸ nodup_listedBy _
  rw [← Plan.labels_of_split written] at labels
  rw [(FollowUp.brought_append_lacking _ _).nodup_iff]
  have sent : ((split.followUps.take later.length).flatMap FollowUp.relations).Sublist
      (split.followUps.flatMap FollowUp.relations) := (List.take_sublist _ _).flatMap _
  exact sent.nodup (List.nodup_append.mp labels).2.1

namespace Optimizer

theorem get?_strip (p : Plan) (key : String) (row : Row) (x : String) :
    (strip p key row).get? x = if x = key ∧ asksFor p x = false then none else row.get? x := by
  unfold strip
  by_cases asked : asksFor p key = true
  · rw [if_pos asked, if_neg]
    rintro ⟨rfl, unasked⟩
    exact Bool.false_ne_true (unasked.symm.trans asked)
  · rw [if_neg asked, Row.get?_remove]
    by_cases same : x = key
    · subst same
      simp [asked]
    · simp [same]

/-- The rows of a split plan: the base rows with the answers to its batches. -/
def completed (p : Plan) (split : Split) (base : List Row) (later : List Exchange) : List Row :=
  (Rows.mergeAll split.primaryKey (FollowUp.answered split.followUps later) base).map
    (strip p split.primaryKey)

/-- What the answers to all batches of a split plan come to if failed ones are skipped. -/
structure Skips (o : Optimizer ε σ) (p : Plan) (split : Split) (base : List Row) (later : List Exchange)
    (result : Except ExecutionError (List Row × Report)) : Prop where
  /-- All batches are sent, by the keys of the base rows. -/
  sent : later.map Exchange.statement = split.followUps.map fun batch =>
    batch.bind o.executor.dialect (Rows.collectKeys base split.primaryKey)
  /-- The answers are merged in order, and the failures are counted. -/
  merged : result = .ok (completed p split base later,
    { statements := split.followUps.length + 1
      splitBatches := split.followUps.length
      failedBatches := failures later })
  /-- The base rows stay in their places with all columns that no answered batch brings; only a key
  that the plan does not ask for is removed. -/
  kept : List.Forall₂ (fun before row => ∀ x,
    (x = split.primaryKey ∧ asksFor p x = false → row.get? x = none) ∧
    (¬(x = split.primaryKey ∧ asksFor p x = false) →
      x ∉ Rows.brought (FollowUp.answered split.followUps later) → row.get? x = before.get? x))
    base (completed p split base later)
  /-- A relation that only failed batches were to bring decodes to the empty value of its slot in every
  row whose base row has no such column. -/
  empty : ∀ (layout : Layout), ∀ label ∈ layout.map Slot.label,
    label ∈ FollowUp.lacking split.followUps later →
    label ∉ Rows.brought (FollowUp.answered split.followUps later) →
    List.Forall₂ (fun before row => before.get? label = none → ∃ slot ∈ layout, slot.label = label ∧
      (Decode.row layout row).1.get? label = some slot.shape.empty) base (completed p split base later)
  /-- A relation that one answered batch brings is as if that batch had been the only one. -/
  alone : ∀ before relations incoming after,
    FollowUp.answered split.followUps later = before ++ (relations, incoming) :: after →
    ∀ label ∈ relations, label ∉ Rows.brought (before ++ after) →
      label ≠ split.primaryKey ∨ asksFor p label = true →
      List.Forall₂ (fun single row => row.get? label = single.get? label)
        (Rows.merge base incoming split.primaryKey relations) (completed p split base later)

/-- What the answers come to if a batch that fails is the end: either none does, or the first that fails
is the last that is sent, and its error is the result. -/
structure Stops (o : Optimizer ε σ) (p : Plan) (split : Split) (base : List Row) (later : List Exchange)
    (result : Except ExecutionError (List Row × Report)) : Prop where
  complete : failures later = 0 → o.Skips p split base later result
  broken : failures later ≠ 0 → ∃ before batch after earlier e,
    split.followUps = before ++ batch :: after ∧
    (earlier.map Exchange.statement = before.map fun batch =>
      batch.bind o.executor.dialect (Rows.collectKeys base split.primaryKey)) ∧
    failures earlier = 0 ∧
    later = earlier ++
      [⟨batch.bind o.executor.dialect (Rows.collectKeys base split.primaryKey), .error e⟩] ∧
    result = .error e

section Completed

variable (p : Plan) (split : Split) (base : List Row) (later : List Exchange)

theorem completed_kept : List.Forall₂ (fun before row => ∀ x,
    (x = split.primaryKey ∧ asksFor p x = false → row.get? x = none) ∧
    (¬(x = split.primaryKey ∧ asksFor p x = false) →
      x ∉ Rows.brought (FollowUp.answered split.followUps later) → row.get? x = before.get? x))
    base (completed p split base later) := by
  rw [completed, List.forall₂_map_right_iff]
  refine (Rows.mergeAll_sameBut _ base).imp fun before row same x => ?_
  rw [get?_strip]
  refine ⟨fun hidden => if_pos hidden, fun open_ other => ?_⟩
  rw [if_neg open_, same x other]

theorem completed_empty {layout : Layout} {label : String} (listed : label ∈ layout.map Slot.label)
    (other : label ∉ Rows.brought (FollowUp.answered split.followUps later)) :
    List.Forall₂ (fun before row => before.get? label = none → ∃ slot ∈ layout, slot.label = label ∧
      (Decode.row layout row).1.get? label = some slot.shape.empty) base
      (completed p split base later) := by
  refine (completed_kept p split base later).imp fun before row kept absent => ?_
  have none : row.get? label = none := by
    by_cases hidden : label = split.primaryKey ∧ asksFor p label = false
    · exact (kept label).1 hidden
    · rw [(kept label).2 hidden other, absent]
  refine Decode.row_empty layout row (fun v held => ?_) listed
  exact nomatch none.symm.trans held

theorem completed_alone {before after : List (List String × List Row)} {relations : List String}
    {incoming : List Row}
    (answered : FollowUp.answered split.followUps later = before ++ (relations, incoming) :: after)
    {label : String} (elsewhere : label ∉ Rows.brought (before ++ after))
    (asked : label ≠ split.primaryKey ∨ asksFor p label = true) :
    List.Forall₂ (fun single row => row.get? label = single.get? label)
      (Rows.merge base incoming split.primaryKey relations) (completed p split base later) := by
  rw [completed, answered, List.forall₂_map_right_iff]
  refine (Rows.mergeAll_alone elsewhere base).imp fun single row alike => ?_
  rw [get?_strip, if_neg, alike.2]
  rintro ⟨same, unasked⟩
  exact asked.elim (fun apart => apart same) fun asks => Bool.false_ne_true (unasked.symm.trans asks)

end Completed

section Batches

variable {o : Optimizer ε σ} {key : String} {keys : List DbValue} {followUps : List FollowUp}
  {rows : List Row} {report : Report} {later : List Exchange}
  {result : Except ExecutionError (List Row × Report)}

theorem Batches.sent (batches : o.Batches key keys followUps rows report later result) :
    later.map Exchange.statement <+: followUps.map fun batch => batch.bind o.executor.dialect keys := by
  induction batches with
  | done => exact List.prefix_refl _
  | answered _ ih => exact (List.prefix_cons_inj _).mpr ih
  | skipped _ _ _ ih => exact (List.prefix_cons_inj _).mpr ih
  | stopped _ _ => exact (List.prefix_cons_inj _).mpr List.nil_prefix

/-- The rows become the base rows with the answers to the batches, in the order of these. -/
theorem Batches.merged (batches : o.Batches key keys followUps rows report later result)
    {merged : List Row} {done : Report} (succeeded : result = .ok (merged, done)) :
    merged = Rows.mergeAll key (FollowUp.answered followUps later) rows := by
  induction batches with
  | done => exact (Prod.mk.inj (Except.ok.inj succeeded)).1.symm
  | answered _ ih => exact ih succeeded
  | skipped _ _ _ ih => exact ih succeeded
  | stopped _ _ => exact nomatch succeeded

/-- If the batches give rows at all, every one of them was sent. -/
theorem Batches.skips {p : Plan} {split : Split} {base merged : List Row} {done : Report}
    (batches : o.Batches split.primaryKey (Rows.collectKeys base split.primaryKey) split.followUps base
      { statements := 1, splitBatches := split.followUps.length } later (.ok (merged, done))) :
    o.Skips p split base later (.ok (merged.map (strip p split.primaryKey), done)) := by
  obtain ⟨length, counts, -⟩ := batches.tallies
  constructor
  case sent =>
    refine batches.sent.eq_of_length ?_
    rw [List.length_map, List.length_map, length]
  case merged =>
    rw [batches.merged rfl, counts, length, Nat.add_comm, Nat.zero_add]
    rfl
  case kept => exact completed_kept p split base later
  case empty =>
    intro layout label listed _ other
    exact completed_empty p split base later listed other
  case alone =>
    intro before relations incoming after answered label _ elsewhere asked
    exact completed_alone p split base later answered elsewhere asked

theorem Batches.stops {p : Plan} {split : Split} {base : List Row} (policy : o.config.splitFailure = .fail)
    (batches : o.Batches split.primaryKey (Rows.collectKeys base split.primaryKey) split.followUps base
      { statements := 1, splitBatches := split.followUps.length } later result) :
    o.Stops p split base later
      (result.map fun done => (done.1.map (strip p split.primaryKey), done.2)) := by
  have tallies := batches.tallies
  rcases result with e | ⟨merged, done⟩
  · obtain ⟨breaks, -, -⟩ := tallies
    refine ⟨fun none => absurd none (Nat.pos_iff_ne_zero.mp breaks.failures_pos), fun _ => ?_⟩
    obtain ⟨earlier, statement, rfl, complete⟩ := breaks
    obtain ⟨unsent, all⟩ := batches.sent
    rw [List.map_append, List.append_assoc] at all
    obtain ⟨before, more, followUps, bound, rest⟩ := List.map_eq_append_iff.mp all.symm
    obtain ⟨batch, after, rfl, last, -⟩ := List.map_eq_cons_iff.mp rest
    refine ⟨before, batch, after, earlier, e, followUps, bound.symm, complete, ?_, rfl⟩
    rw [last]
  · obtain ⟨-, -, complete⟩ := tallies
    have none : failures later = 0 :=
      complete.resolve_right fun skip => absurd (policy.symm.trans skip) (by decide)
    exact ⟨fun _ => batches.skips, fun some => absurd none some⟩

end Batches

variable (o : Optimizer ε σ) (p : Plan) (split : Split) (timeout : Option Duration)

/-- Whatever the executor answers after base rows with a key: where failed batches are skipped, the answers
to all others are merged and nothing else is changed; otherwise the first failure is the end. In the plan of
a query no failed batch shares a relation with an answered one. -/
theorem executeSplit_tolerates {base : List Row} (s : State ε σ)
    (answered : (o.executor.fetch split.base timeout s.executor).answer = .ok base)
    (keyed : Rows.hasValue base split.primaryKey = true) :
    ∃ later,
      Journaled.exchanges (o.journaled.executeSplit p split timeout s.opened).2 =
        ⟨split.base, .ok base⟩ :: later ∧
      (o.config.splitFailure = .skip →
        o.Skips p split base later (o.executeSplit p split timeout s).1) ∧
      (o.config.splitFailure = .fail →
        o.Stops p split base later (o.executeSplit p split timeout s).1) ∧
      ∀ e calls c, p = QueryCall.build e calls → p.split c = .ok split →
        (Rows.brought (FollowUp.answered split.followUps later) ++
          FollowUp.lacking split.followUps later).Nodup := by
  have due : (CompiledQuery.split split).due base = split.followUps := by
    rw [CompiledQuery.due, Rows.isEmpty_collectKeys, keyed]
    rfl
  obtain ⟨e, failed, -⟩ | ⟨rows, later, result, found, exchanges, batches, same⟩ :=
    o.executeSplit_batches p split timeout s.opened
  · cases answered.symm.trans failed
  obtain rfl := Except.ok.inj (answered.symm.trans found)
  rw [due] at batches
  obtain ⟨plain, -⟩ := o.journaled_twins.executeSplit p split timeout s.opened s rfl
  rw [← plain, same]
  refine ⟨later, exchanges, fun policy => ?_, fun policy => batches.stops policy, ?_⟩
  · rcases result with e | ⟨merged, done⟩
    · exact absurd (policy.symm.trans batches.tallies.2.2) (by decide)
    · exact batches.skips
  · rintro e calls c rfl written
    exact QueryCall.batches_apart written later

end Optimizer

open Bookshelf in
/-- The authors have books but no awards: these decode to an empty list. -/
theorem Optimizer.executeSplit_tolerates_shelf :
    (flaky.executor.fetch split.base none fresh.executor).answer = .ok baseRows ∧
      Rows.hasValue baseRows split.primaryKey = true ∧
      ∃ later, Journaled.exchanges (flaky.journaled.executeSplit authors split none fresh.opened).2 =
          ⟨split.base, .ok baseRows⟩ :: later ∧
        flaky.Skips authors split baseRows later (flaky.executeSplit authors split none fresh).1 ∧
        FollowUp.lacking split.followUps later = ["awards"] := by
  have answered : (flaky.executor.fetch split.base none fresh.executor).answer = .ok baseRows := rfl
  have keyed : Rows.hasValue baseRows split.primaryKey = true := by decide
  obtain ⟨later, exchanges, skips, -⟩ :=
    flaky.executeSplit_tolerates authors split none fresh answered keyed
  have failed : later = [⟨split.followUps[0].bind .sqlite [.int64 1, .int64 2], .error (.timeout "5s")⟩] :=
    (List.cons.inj exchanges).2.symm
  exact ⟨answered, keyed, later, exchanges, skips rfl, by rw [failed]; rfl⟩

end EagerLoad
