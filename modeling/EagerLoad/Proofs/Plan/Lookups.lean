import EagerLoad.Proofs.Plan.Written
import EagerLoad.Proofs.Relation.Keyed

/-! # What plans look up

A draft looks up localizations that the memo finds already. Remembering them changes no later draft,
so the statements of a query do not depend on those compiled before. -/
namespace EagerLoad

open Sql Sql.Draft

namespace Plan

variable (p : Plan) (c : Compiler)

/-- Any raw text, and the localizations that are found for the entities a plan may meet. -/
def finds : Allowed where
  raw _ := True
  consult type found := ∃ e, Memo.Knows c.registry p.entity e ∧ e.type = type ∧
    found = (c.memo.consult p.entity).localization? e

variable {p c}

theorem context_memo (wanted : p.locale.isSome = true) :
    (p.context c).memo = c.memo.consult p.entity := if_pos wanted

theorem context_consults (sound : c.registry.Sound) : (p.context c).Consults (p.finds c) := by
  intro wanted type e registered
  have own : c.registry.get? e.type = some e := by rwa [sound type e registered]
  exact ⟨e, .inr own, rfl, by rw [context_memo wanted]⟩

theorem own_consult (wanted : p.locale.isSome = true) :
    (p.finds c).consult p.entity.type (p.localization? c) := by
  refine ⟨p.entity, .inl rfl, rfl, ?_⟩
  rw [localization?, if_pos wanted, Memo.localization?_consult, if_pos rfl]

theorem draft_finds (sound : c.registry.Sound) {part : Part} (known : part.relations ⊆ p.relations) :
    Written (p.finds c) (p.draft c part) :=
  p.draft_written c part (context_consults sound) own_consult known fun _ _ => trivial

/-- Memos that find the same give contexts that find the same. -/
theorem context_alike (sound : c.registry.Sound) {m : Memo}
    (alike : Memo.Alike c.registry p.entity m c.memo) :
    (p.context { c with memo := m }).Alike (p.context c) where
  dialect := rfl
  registry := rfl
  locale := rfl
  finds := by
    intro wanted type e registered
    have own : c.registry.get? e.type = some e := by rwa [sound type e registered]
    rw [context_memo wanted, context_memo wanted]
    exact alike e (.inr own)

/-- Following a draft keeps what is found. -/
theorem alike_follow {draft : Draft} (written : Written (p.finds c) draft) {m : Memo}
    (alike : Memo.Alike c.registry p.entity m c.memo) :
    Memo.Alike c.registry p.entity
      (draft.consulted.foldl (fun m found => m.remember found.1 found.2) m) c.memo := by
  have consulted : ∀ entry ∈ draft.consulted, (p.finds c).consult entry.1 entry.2 :=
    fun _ => written.of_consulted
  generalize draft.consulted = entries at consulted
  induction entries generalizing m with
  | nil => exact alike
  | cons entry rest ih =>
    obtain ⟨type, found⟩ := entry
    obtain ⟨e, knows, rfl, rfl⟩ := consulted (type, found) (by simp)
    exact ih (alike.remember knows) fun other later => consulted other (by simp [later])

end Plan

namespace Keyed

variable {ctx other : Context} (alike : ctx.Alike other) (base : Entity) (keys : List DbValue)
include alike

theorem relation_congr (r : RelationRequest) (columns : ColumnSelection) :
    relation ctx base r columns keys = relation other base r columns keys := by
  unfold relation
  rw [Source.andThen_congr alike, alike.locale]

theorem count_congr (c : CountRequest) : count ctx base c keys = count other base c keys := by
  unfold count grouped
  rw [Source.andThen_congr alike, alike.locale]

theorem aggregate_congr (a : AggregateRequest) :
    aggregate ctx base a keys = aggregate other base a keys := by
  unfold aggregate grouped
  rw [Source.andThen_congr alike, alike.locale, alike.dialect]

end Keyed
end EagerLoad
