import EagerLoad.Proofs.Plan.Parts
import EagerLoad.Query.Call

/-! # Labels of what a query asks for

Relations, counts and aggregates are three lists, in each of which a later request takes the place of the
earlier one with its label. The label of an aggregate joins three names by underscores, so aggregates of
different columns may share one, and nothing keeps the labels of the three lists apart. -/
namespace EagerLoad

/-- What an aggregate is computed of. -/
def AggregateRequest.subject (a : AggregateRequest) : AggregateFunction × String × String :=
  (a.function, a.relation, a.column)

namespace QueryCall

def relation? (e : Entity) : QueryCall → Option RelationRequest
  | .relation call => some (call.request e)
  | _ => none

def count? : QueryCall → Option CountRequest
  | .count request => some request
  | _ => none

def aggregate? : QueryCall → Option AggregateRequest
  | .aggregate request => some request
  | _ => none

def relationsAsked (e : Entity) (calls : List QueryCall) : List RelationRequest :=
  calls.filterMap (relation? e)

def countsAsked (calls : List QueryCall) : List CountRequest := calls.filterMap count?

def aggregatesAsked (calls : List QueryCall) : List AggregateRequest := calls.filterMap aggregate?

@[simp] theorem entity_apply (p : Plan) (call : QueryCall) : (call.apply p).entity = p.entity := by
  cases call <;> rfl

/-- If every single call puts what it asks for into a list of the plan, then all calls do. -/
theorem foldl_apply_listed (key : α → String) (list : Plan → List α)
    (asked? : Entity → QueryCall → Option α)
    (step : ∀ (p : Plan) (call : QueryCall), list (call.apply p) =
      (asked? p.entity call).elim (list p) fun item => putBy key item (list p))
    (p : Plan) (calls : List QueryCall) :
    list (calls.foldl apply p) =
      (calls.filterMap (asked? p.entity)).foldl (fun listed item => putBy key item listed) (list p) := by
  induction calls generalizing p with
  | nil => rfl
  | cons call rest ih =>
    rw [List.foldl_cons, ih, entity_apply, step, List.filterMap_cons]
    cases asked? p.entity call <;> rfl

theorem relations_build (e : Entity) (calls : List QueryCall) :
    (build e calls).relations = listedBy RelationRequest.label (relationsAsked e calls) := by
  apply foldl_apply_listed RelationRequest.label Plan.relations relation?
  intro p call
  cases call <;> rfl

theorem counts_build (e : Entity) (calls : List QueryCall) :
    (build e calls).counts = listedBy CountRequest.label (countsAsked calls) := by
  apply foldl_apply_listed CountRequest.label Plan.counts fun _ => count?
  intro p call
  cases call <;> rfl

theorem aggregates_build (e : Entity) (calls : List QueryCall) :
    (build e calls).aggregates = listedBy AggregateRequest.label (aggregatesAsked calls) := by
  apply foldl_apply_listed AggregateRequest.label Plan.aggregates fun _ => aggregate?
  intro p call
  cases call <;> rfl

/-- The last aggregate that is asked for under the label of another one. -/
def lastAsked? (calls : List QueryCall) (a : AggregateRequest) : Option AggregateRequest :=
  (aggregatesAsked calls).findRev? fun b => b.label == a.label

theorem mem_aggregates_build_iff {e : Entity} {calls : List QueryCall} {a : AggregateRequest} :
    a ∈ (build e calls).aggregates ↔ lastAsked? calls a = some a := by
  rw [aggregates_build, mem_listedBy_iff, lastAsked?]

theorem label_eq_of_subject_eq {a b : AggregateRequest} (same : a.subject = b.subject) :
    a.label = b.label := by
  obtain ⟨function, relation, column⟩ : a.function = b.function ∧ a.relation = b.relation ∧
      a.column = b.column := by simpa [AggregateRequest.subject] using same
  rw [AggregateRequest.label, AggregateRequest.label, function, relation, column]

/-- An aggregate is in the plan unless the last one under its label is computed of something else. -/
theorem subject_mem_build_iff (e : Entity) (calls : List QueryCall) (a : AggregateRequest) :
    a.subject ∈ (build e calls).aggregates.map AggregateRequest.subject ↔
      ∃ last, lastAsked? calls a = some last ∧ last.subject = a.subject := by
  rw [List.mem_map]
  apply exists_congr
  intro last
  apply and_congr_left
  intro same
  rw [mem_aggregates_build_iff, lastAsked?, lastAsked?, label_eq_of_subject_eq same]

/-- That no label is asked for in two of the three lists. -/
def LabelsApart (e : Entity) (calls : List QueryCall) : Prop :=
  (∀ r ∈ relationsAsked e calls, ∀ c ∈ countsAsked calls, r.label ≠ c.label) ∧
    (∀ r ∈ relationsAsked e calls, ∀ a ∈ aggregatesAsked calls, r.label ≠ a.label) ∧
    ∀ c ∈ countsAsked calls, ∀ a ∈ aggregatesAsked calls, c.label ≠ a.label

/-- That every relation and every count that is asked for is in the plan under its name. -/
structure KeepsNames (e : Entity) (calls : List QueryCall) : Prop where
  relations : ∀ r ∈ relationsAsked e calls,
    r.label ∈ (build e calls).relations.map RelationRequest.label
  counts : ∀ c ∈ countsAsked calls, c.label ∈ (build e calls).counts.map CountRequest.label

/-- That everything that is asked for is in the plan, under a name of its own. -/
structure KeepsAll (e : Entity) (calls : List QueryCall) : Prop extends KeepsNames e calls where
  aggregates : ∀ a ∈ aggregatesAsked calls,
    a.subject ∈ (build e calls).aggregates.map AggregateRequest.subject
  distinct : (build e calls).labels.Nodup

/-- What of that holds for every query: an aggregate is lost only to one of the same label, and a name is
used twice only in two lists. -/
structure Keeps (e : Entity) (calls : List QueryCall) : Prop extends KeepsNames e calls where
  aggregates : ∀ a ∈ aggregatesAsked calls,
    a.subject ∈ (build e calls).aggregates.map AggregateRequest.subject ↔
      ∃ last, lastAsked? calls a = some last ∧ last.subject = a.subject
  relations_distinct : ((build e calls).relations.map RelationRequest.label).Nodup
  counts_distinct : ((build e calls).counts.map CountRequest.label).Nodup
  aggregates_distinct : ((build e calls).aggregates.map AggregateRequest.label).Nodup
  distinct_iff : (build e calls).labels.Nodup ↔ LabelsApart e calls

theorem labels_build_nodup_iff (e : Entity) (calls : List QueryCall) :
    (build e calls).labels.Nodup ↔ LabelsApart e calls := by
  rw [Plan.labels, relations_build, counts_build, aggregates_build, keys_listedBy, keys_listedBy,
    keys_listedBy, List.nodup_append, List.nodup_append]
  simp only [nodup_distinct, true_and, List.mem_append, mem_distinct, List.forall_mem_map, or_imp,
    forall_and, LabelsApart]

/-- Every query keeps the names of its relations and counts, and an aggregate unless the last one under its
label is of another column. The labels of a plan are distinct unless two of its lists share one. -/
theorem build_keeps (e : Entity) (calls : List QueryCall) : Keeps e calls where
  relations r known := by
    rw [relations_build, mem_keys_listedBy]
    exact List.mem_map_of_mem known
  counts c known := by
    rw [counts_build, mem_keys_listedBy]
    exact List.mem_map_of_mem known
  aggregates a _ := subject_mem_build_iff e calls a
  relations_distinct := relations_build e calls ▸ nodup_listedBy _
  counts_distinct := counts_build e calls ▸ nodup_listedBy _
  aggregates_distinct := aggregates_build e calls ▸ nodup_listedBy _
  distinct_iff := labels_build_nodup_iff e calls

namespace Lost

def articles : Entity :=
  { type := "Article"
    table := "articles"
    columns := ["title"]
    relations :=
      [("comments", .hasMany "Comment" "article_id" "id"),
        ("comments_votes", .hasMany "Vote" "article_id" "id"),
        ("comments_count", .hasOne "Tally" "article_id" "id")] }

/-- Two sums whose labels are both `sum_comments_votes_up`. -/
def sums : List QueryCall :=
  [.aggregate ⟨"comments", "votes_up", .sum, none⟩, .aggregate ⟨"comments_votes", "up", .sum, none⟩]

/-- A relation and a count whose labels are both `comments_count`. -/
def counted : List QueryCall :=
  [.relation { path := "comments_count" }, .count { relation := "comments" }]

end Lost

open Lost in
theorem build_keeps_not_all : ¬ KeepsAll articles sums ∧ ¬ KeepsAll articles counted := by
  constructor
  · intro kept
    have lost : (.sum, "comments", "votes_up") ∉
        (build articles sums).aggregates.map AggregateRequest.subject := by decide
    have asked : ⟨"comments", "votes_up", .sum, none⟩ ∈ aggregatesAsked sums := .head _
    exact lost (kept.aggregates _ asked)
  · intro kept
    have twice : ¬ (build articles counted).labels.Nodup := by decide
    exact twice kept.distinct

end QueryCall
end EagerLoad
