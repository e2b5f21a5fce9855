import EagerLoad.Plan.Basic
import EagerLoad.Proofs.Ordered
import EagerLoad.Proofs.Text
import Mathlib.Data.List.TakeWhile

/-! # Additions to a plan

A plan lists relations by name, counts and aggregates by label. Whatever is added to a new plan and in whatever
order, each list holds one request for every name or label that was added to it, in the order in which these first
came, and each request is the last one of its name. -/
namespace EagerLoad

/-- That of the items that were added, one is listed for every key, in the order in which the keys first came, and
it is the last one of its key. -/
structure LastWins (key : α → String) (added listed : List α) : Prop where
  keys : listed.map key = (added.map key).eraseDups
  last : ∀ item ∈ listed, added.findRev? (fun other => key other == key item) = some item

theorem lastWins_listedBy (key : α → String) (added : List α) : LastWins key added (listedBy key added) where
  keys := by rw [keys_listedBy, distinct_eq_eraseDups]
  last _ listed := mem_listedBy_iff.mp listed

theorem LastWins.length_eq {key : α → String} {added listed : List α} (h : LastWins key added listed) :
    listed.length = (added.map key).eraseDups.length := by
  rw [← h.keys, List.length_map]

/-- The part of a path before its first point. -/
def firstSegment (path : String) : String := String.ofList (path.toList.takeWhile (· != '.'))

theorem RelationRequest.label_ofPath (path : String) (kind : RelationKind) :
    (ofPath path kind).label = firstSegment path := by
  have other {text : List Char} (free : '.' ∉ text) : ∀ c ∈ text, (c != '.') = true := by
    intro c found
    exact bne_iff_ne.mpr fun point => free (point ▸ found)
  unfold ofPath firstSegment
  split
  case h_1 first rest cut =>
    obtain ⟨text, free⟩ := Text.eq_of_splitFirst? cut
    rw [text, List.takeWhile_append_of_pos (other free), List.takeWhile_cons_of_neg (by simp), List.append_nil]
    rfl
  case h_2 uncut =>
    have free := Text.splitFirst?_eq_none_iff.mp uncut
    rw [List.takeWhile_eq_self_iff.mpr (other free), String.ofList_toList]
    rfl

namespace Plan

inductive Addition where
  | relation (request : RelationRequest)
  | count (request : CountRequest)
  | aggregate (request : AggregateRequest)

namespace Addition

def apply (p : Plan) : Addition → Plan
  | relation request => p.addRelation request
  | count request => p.addCount request
  | aggregate request => p.addAggregate request

def relation? : Addition → Option RelationRequest
  | relation request => some request
  | _ => none

def count? : Addition → Option CountRequest
  | count request => some request
  | _ => none

def aggregate? : Addition → Option AggregateRequest
  | aggregate request => some request
  | _ => none

end Addition

/-- The plan of an entity after additions to a new one. -/
def extended (e : Entity) (additions : List Addition) : Plan := additions.foldl Addition.apply { entity := e }

/-- A single addition is put into its own list, and nothing else is changed, so the same holds of all of them. -/
theorem foldl_apply (p : Plan) (additions : List Addition) :
    additions.foldl Addition.apply p =
      { p with
        relations := (additions.filterMap Addition.relation?).foldl
          (fun listed r => putBy RelationRequest.label r listed) p.relations
        counts := (additions.filterMap Addition.count?).foldl
          (fun listed c => putBy CountRequest.label c listed) p.counts
        aggregates := (additions.filterMap Addition.aggregate?).foldl
          (fun listed a => putBy AggregateRequest.label a listed) p.aggregates } := by
  induction additions generalizing p with
  | nil => rfl
  | cons addition rest ih =>
    rw [List.foldl_cons, ih]
    cases addition <;> rfl

theorem extended_eq (e : Entity) (additions : List Addition) :
    extended e additions =
      { entity := e
        relations := listedBy RelationRequest.label (additions.filterMap Addition.relation?)
        counts := listedBy CountRequest.label (additions.filterMap Addition.count?)
        aggregates := listedBy AggregateRequest.label (additions.filterMap Addition.aggregate?) } :=
  foldl_apply { entity := e } additions

/-- What additions make of a new plan. -/
structure ListsLast (e : Entity) (additions : List Addition) : Prop where
  relations : LastWins RelationRequest.label (additions.filterMap Addition.relation?) (extended e additions).relations
  counts : LastWins CountRequest.label (additions.filterMap Addition.count?) (extended e additions).counts
  aggregates : LastWins AggregateRequest.label (additions.filterMap Addition.aggregate?)
    (extended e additions).aggregates
  /-- Each list is as if nothing had been added to the others, and all else is as in a new plan. -/
  apart : extended e additions =
    { entity := e
      relations := (extended e (additions.filter (·.relation?.isSome))).relations
      counts := (extended e (additions.filter (·.count?.isSome))).counts
      aggregates := (extended e (additions.filter (·.aggregate?.isSome))).aggregates }
  subqueries : (extended e additions).subqueries =
    ((additions.filterMap Addition.relation?).map RelationRequest.label).eraseDups.length +
      ((additions.filterMap Addition.count?).map CountRequest.label).eraseDups.length +
      ((additions.filterMap Addition.aggregate?).map AggregateRequest.label).eraseDups.length

private theorem filterMap_filter_isSome (f : α → Option β) (items : List α) :
    (items.filter fun item => (f item).isSome).filterMap f = items.filterMap f := by
  rw [List.filterMap_filter]
  congr 1
  funext item
  cases f item <;> rfl

/-- A relation is named by the first segment of its path, and in each list of a plan the last request of a name
takes the place of the first one. -/
theorem lists_last (e : Entity) (additions : List Addition) :
    (∀ path kind, (RelationRequest.ofPath path kind).label = firstSegment path) ∧ ListsLast e additions := by
  have relations : LastWins RelationRequest.label (additions.filterMap Addition.relation?)
      (extended e additions).relations := extended_eq e additions ▸ lastWins_listedBy _ _
  have counts : LastWins CountRequest.label (additions.filterMap Addition.count?)
      (extended e additions).counts := extended_eq e additions ▸ lastWins_listedBy _ _
  have aggregates : LastWins AggregateRequest.label (additions.filterMap Addition.aggregate?)
      (extended e additions).aggregates := extended_eq e additions ▸ lastWins_listedBy _ _
  refine ⟨RelationRequest.label_ofPath, relations, counts, aggregates, ?_, ?_⟩
  · simp only [extended_eq, filterMap_filter_isSome]
  · rw [subqueries, relations.length_eq, counts.length_eq, aggregates.length_eq]

example :
    let p := extended { type := "Article", table := "articles" }
      [.count { relation := "comments" }, .relation (.ofPath "author.name" .nested), .count { relation := "tags" },
        .count { relation := "votes", name := some "comments_count" }, .relation { name := "author", kind := .single }]
    p.counts.map CountRequest.relation = ["votes", "tags"] ∧ p.relations.map RelationRequest.kind = [.single] ∧
      p.subqueries = 3 := by
  decide +kernel

end Plan
end EagerLoad
