import Mathlib.Data.List.Forall2
import EagerLoad.Proofs.Plan.Parts

/-! # Batches and follow-ups

The batches of a plan carry its relations, each once and in order. A split plan has a follow-up for
every batch after the first. -/
namespace EagerLoad

open Sql Sql.Draft

theorem flatten_chunksOf (size : Nat) (items : List α) : (chunksOf size items).flatten = items := by
  induction h : items.length using Nat.strongRecOn generalizing items with
  | _ length ih =>
    cases items with
    | nil => simp [chunksOf]
    | cons x rest =>
      have shorter : (rest.drop (size - 1)).length < length := by
        rw [← h, List.length_drop, List.length_cons]
        omega
      rw [chunksOf, List.flatten_cons, ih _ shorter _ rfl, List.cons_append, List.take_append_drop]

theorem bind_eq_ok_iff {x : Except ε α} {f : α → Except ε β} {b : β} :
    (x >>= f) = .ok b ↔ ∃ a, x = .ok a ∧ f a = .ok b := by
  cases x <;> simp [bind, Except.bind]

theorem map_eq_ok_iff {x : Except ε α} {f : α → β} {b : β} :
    x.map f = .ok b ↔ ∃ a, x = .ok a ∧ f a = b := by
  cases x <;> simp [Except.map]

theorem mapM_eq_ok_iff {f : α → Except ε β} {items : List α} {results : List β} :
    items.mapM f = .ok results ↔
      List.Forall₂ (fun item result => f item = .ok result) items results := by
  induction items generalizing results with
  | nil => cases results <;> simp [pure, Except.pure]
  | cons item rest ih =>
    rw [List.mapM_cons]
    cases here : f item with
    | error e => cases results <;> simp [bind, Except.bind, here]
    | ok result =>
      cases there : rest.mapM f with
      | error e => cases results <;> simp [bind, Except.bind, ← ih, there, here]
      | ok others =>
        cases results <;> simp [bind, Except.bind, pure, Except.pure, ← ih, there, here]

theorem exists_of_forall₂ {R : α → β → Prop} {xs : List α} {ys : List β} (h : List.Forall₂ R xs ys)
    {x : α} (found : x ∈ xs) : ∃ y ∈ ys, R x y := by
  induction h with
  | nil => exact absurd found (by simp)
  | cons here _ ih =>
    obtain rfl | found := List.mem_cons.mp found
    · exact ⟨_, by simp, here⟩
    · obtain ⟨y, known, related⟩ := ih found
      exact ⟨y, by simp [known], related⟩

/-- Two lists that are related to a common one pair up by it. -/
theorem forall₂_of_common {R : α → β → Prop} {S : α → γ → Prop} {xs : List α} {ys : List β}
    {zs : List γ} (left : List.Forall₂ R xs ys) (right : List.Forall₂ S xs zs) :
    List.Forall₂ (fun y z => ∃ x, R x y ∧ S x z) ys zs := by
  induction left generalizing zs with
  | nil =>
    cases right
    exact .nil
  | cons here _ ih =>
    cases right with
    | cons there others => exact .cons ⟨_, here, there⟩ (ih others)

namespace Plan

variable (p : Plan) (c : Compiler)

/-- The relations of the base statement of a split plan. -/
def firstBatch (config : Config) : List RelationRequest := (p.batches config).headD []

theorem batches_flatten (config : Config) :
    p.firstBatch config ++ (p.laterBatches config).flatten = p.relations := by
  have all : (p.batches config).flatten = p.relations := flatten_chunksOf _ _
  rw [firstBatch, laterBatches, ← all]
  cases p.batches config <;> simp

theorem firstBatch_subset (config : Config) : p.firstBatch config ⊆ p.relations := by
  rw [← p.batches_flatten config]
  exact List.subset_append_left _ _

theorem laterBatch_subset {config : Config} {batch : List RelationRequest}
    (h : batch ∈ p.laterBatches config) : batch ⊆ p.relations := by
  rw [← p.batches_flatten config]
  intro r found
  exact List.mem_append_right _ (List.mem_flatten_of_mem h found)

variable {p c}

theorem followUp_eq_ok_iff {batch : List RelationRequest} {f : FollowUp} :
    p.followUp c batch = .ok f ↔
      (p.draft c (p.laterPart batch)).failure? = none ∧
        f = ⟨batch.map RelationRequest.label, (p.draft c (p.laterPart batch)).fragment c.dialect⟩ := by
  rw [followUp, map_eq_ok_iff]
  constructor
  · rintro ⟨template, written, rfl⟩
    obtain ⟨complete, rfl⟩ := (Sql.Draft.compile_eq_ok_iff _ _ _).mp written
    exact ⟨complete, rfl⟩
  · rintro ⟨complete, rfl⟩
    exact ⟨_, (Sql.Draft.compile_eq_ok_iff _ _ _).mpr ⟨complete, rfl⟩, rfl⟩

/-- A plan is split into the statement of its first batch and a follow-up for every other one. -/
theorem split_eq_ok_iff {s : Split} :
    p.split c = .ok s ↔
      Statement.ofDraft c.dialect (p.firstDraft c) = .ok s.base ∧
        List.Forall₂ (fun batch f => p.followUp c batch = .ok f) (p.laterBatches c.config)
          s.followUps ∧
        s.primaryKey = p.entity.primaryKey := by
  simp only [split, bind_eq_ok_iff, mapM_eq_ok_iff, pure, Except.pure, Except.ok.injEq]
  constructor
  · rintro ⟨base, first, followUps, later, rfl⟩
    exact ⟨first, later, rfl⟩
  · rintro ⟨first, later, key⟩
    exact ⟨s.base, first, s.followUps, later, by rw [← key]⟩

/-- The follow-ups, if they are sent at all, bring relations of the plan. -/
theorem sent_relations {s : Split} (written : p.split c = .ok s) (none : Bool) :
    ∀ f ∈ (if none then [] else s.followUps), f.relations ⊆ p.relations.map RelationRequest.label := by
  intro f known
  split at known
  · cases known
  · obtain ⟨-, followUps, -⟩ := split_eq_ok_iff.mp written
    obtain ⟨batch, batched, made⟩ := exists_of_forall₂ followUps.flip known
    obtain ⟨-, rfl⟩ := followUp_eq_ok_iff.mp made
    exact List.map_subset _ (p.laterBatch_subset batched)

/-- The batches carry the labels of the relations, each in its place. -/
theorem labels_of_split {s : Split} (split : p.split c = .ok s) :
    (p.firstBatch c.config).map RelationRequest.label ++ s.followUps.flatMap FollowUp.relations =
      p.relations.map RelationRequest.label := by
  have later (batches : List (List RelationRequest)) (followUps : List FollowUp)
      (written : List.Forall₂ (fun batch f => p.followUp c batch = .ok f) batches followUps) :
      followUps.flatMap FollowUp.relations = batches.flatten.map RelationRequest.label := by
    induction written with
    | nil => rfl
    | cons here _ ih =>
      obtain ⟨-, rfl⟩ := followUp_eq_ok_iff.mp here
      rw [List.flatMap_cons, ih, List.flatten_cons, List.map_append]
  obtain ⟨-, followUps, -⟩ := split_eq_ok_iff.mp split
  rw [later _ _ followUps, ← List.map_append, p.batches_flatten]

theorem compile_eq_ok_iff {compiled : CompiledPlan} :
    p.compile c = .ok compiled ↔
      p.layout = .ok compiled.layout ∧ compiled.subqueries = p.subqueries ∧
        if p.isSplit c.config then ∃ s, p.split c = .ok s ∧ compiled.query = .split s
        else ∃ s, p.unsplit c = .ok s ∧ compiled.query = .single s := by
  by_cases h : p.isSplit c.config
  · simp only [compile, h, if_true, bind_eq_ok_iff, map_eq_ok_iff, pure, Except.pure,
      Except.ok.injEq]
    constructor
    · rintro ⟨layout, shaped, query, ⟨s, written, rfl⟩, rfl⟩
      exact ⟨shaped, rfl, s, written, rfl⟩
    · rintro ⟨shaped, counted, s, written, same⟩
      exact ⟨compiled.layout, shaped, _, ⟨s, written, same.symm⟩, by rw [← counted]⟩
  · simp only [compile, h, if_false, bind_eq_ok_iff, map_eq_ok_iff, pure, Except.pure,
      Except.ok.injEq, Bool.false_eq_true]
    constructor
    · rintro ⟨layout, shaped, query, ⟨s, written, rfl⟩, rfl⟩
      exact ⟨shaped, rfl, s, written, rfl⟩
    · rintro ⟨shaped, counted, s, written, same⟩
      exact ⟨compiled.layout, shaped, _, ⟨s, written, same.symm⟩, by rw [← counted]⟩

theorem orderTail_congr {part other : Part} {separator : String} {terms : List OrderTerm}
    (h : ∀ term ∈ terms, p.emits part term.column = p.emits other term.column) :
    p.orderTail c part separator terms = p.orderTail c other separator terms := by
  induction terms generalizing separator with
  | nil => rfl
  | cons term rest ih =>
    have later (next : String) := @ih next fun t found => h t (by simp [found])
    rw [orderTail, orderTail, h term (by simp), later, later]

/-- Forcing columns keeps the items of those that are selected. -/
theorem items_subset_force (columns : Columns) (forced : List String)
    (mainAlias satelliteAlias : String) :
    columns.items mainAlias satelliteAlias ⊆
      (force columns forced).items mainAlias satelliteAlias := by
  induction forced generalizing columns with
  | nil => exact List.Subset.refl _
  | cons column rest ih =>
    rw [force, List.foldl_cons, ← force]
    refine List.Subset.trans ?_ (ih _)
    split
    · exact List.Subset.refl _
    · intro item found
      simp only [Columns.items, List.map_append, List.mem_append] at found ⊢
      exact found.imp_left .inl

theorem resolve_of_split {s : Split} (split : p.split c = .ok s) :
    ∃ own, Columns.resolve p.entity p.columns (p.localization? c) = .ok own := by
  obtain ⟨first, -⟩ := split_eq_ok_iff.mp split
  obtain ⟨complete, -⟩ := (ofDraft_eq_ok_iff _ _ _).mp first
  obtain ⟨columns, resolved, -⟩ := (p.draft_complete_iff c _).mp complete
  obtain ⟨own, selects, -⟩ := map_eq_ok_iff.mp resolved
  exact ⟨own, selects⟩

theorem relation_complete_of_split {s : Split} (split : p.split c = .ok s)
    {r : RelationRequest} (known : r ∈ p.relations) :
    (Subquery.relation (p.context c) p.entity p.table r).failure? = none := by
  obtain ⟨first, later, -⟩ := split_eq_ok_iff.mp split
  rw [← p.batches_flatten c.config, List.mem_append, List.mem_flatten] at known
  obtain known | ⟨batch, listed, known⟩ := known
  · obtain ⟨complete, -⟩ := (ofDraft_eq_ok_iff _ _ _).mp first
    exact relation_complete_of_part complete known
  · obtain ⟨f, -, written⟩ := exists_of_forall₂ later listed
    obtain ⟨complete, -⟩ := followUp_eq_ok_iff.mp written
    exact relation_complete_of_part complete known

/-- Ordered by none of its relations, a plan has the clauses of its base statement. -/
private theorem clauses_wholePart
    (order : ∀ term ∈ p.order, ∀ r ∈ p.relations, r.label ≠ term.column) :
    p.clauses c p.wholePart = p.clauses c (p.firstPart (p.firstBatch c.config)) := by
  have emitted : ∀ term ∈ p.order, p.emits p.wholePart term.column =
      p.emits (p.firstPart (p.firstBatch c.config)) term.column := by
    intro term found
    have none (relations : List RelationRequest) (known : relations ⊆ p.relations) :
        relations.any (fun r => r.label == term.column) = false := by
      rw [List.any_eq_false]
      intro r listed
      simpa using order term found r (known listed)
    rw [emits, emits, wholePart, firstPart, none _ (List.Subset.refl _),
      none _ (p.firstBatch_subset c.config)]
  rw [Plan.clauses, Plan.clauses, orderTail_congr emitted]
  rfl

/-- If a plan with relations can be split it has a statement of its own, unless it is ordered by a
relation. -/
theorem unsplit_of_split {s : Split} (split : p.split c = .ok s) (selected : p.relations ≠ [])
    (order : ∀ term ∈ p.order, ∀ r ∈ p.relations, r.label ≠ term.column) :
    ∃ statement, p.unsplit c = .ok statement := by
  obtain ⟨first, -, -⟩ := split_eq_ok_iff.mp split
  obtain ⟨first, -⟩ := (ofDraft_eq_ok_iff _ _ _).mp first
  obtain ⟨columns, resolved, chosen, named, rest⟩ := (p.draft_complete_iff c _).mp first
  obtain ⟨own, selects, rfl⟩ := map_eq_ok_iff.mp resolved
  have whole : p.partColumns c p.wholePart = .ok own := map_eq_ok_iff.mpr ⟨own, selects, rfl⟩
  have asked : ∀ item ∈ p.askedItems c p.wholePart own, item.failure? = none := by
    intro item found
    obtain found | found | scalars := (p.mem_askedItems c _ _ _).mp found
    · exact chosen _ (p.mem_selectItems_of_asked c _ _ ((p.mem_askedItems c _ _ _).mpr
        (.inl (items_subset_force own _ _ _ found))))
    · obtain ⟨r, known, rfl⟩ := List.mem_map.mp found
      exact relation_complete_of_split split known
    · exact chosen _ (p.mem_selectItems_of_asked c _ _ ((p.mem_askedItems c _ _ _).mpr
        (.inr (.inr scalars))))
  have items : ∀ item ∈ p.selectItems c p.wholePart own, item.failure? = none := by
    intro item found
    rw [selectItems_eq] at found
    split at found
    · rename_i empty
      obtain ⟨r, known⟩ := List.exists_mem_of_ne_nil _ selected
      have there := (p.mem_askedItems c p.wholePart own _).mpr (.inr (.inl (List.mem_map_of_mem known)))
      exact absurd (List.isEmpty_iff.mp empty) (List.ne_nil_of_mem there)
    · exact asked item found
  have complete : (p.unsplitDraft c).failure? = none := by
    refine (p.draft_complete_iff c _).mpr ⟨own, whole, items, named, ?_⟩
    rw [clauses_wholePart order]
    exact rest
  exact ⟨_, (ofDraft_eq_ok_iff _ _ _).mpr ⟨complete, rfl⟩⟩

end Plan
end EagerLoad
