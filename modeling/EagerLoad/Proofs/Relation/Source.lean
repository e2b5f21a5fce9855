import EagerLoad.Proofs.Entity
import EagerLoad.Proofs.Sql.Draft
import EagerLoad.Relation.Source

/-! # Sources in contexts

A source is found in the registry, with the localization that the memo finds. In contexts that find
the same, the same sources are read. -/
namespace EagerLoad

/-- Whether two contexts find the same for the entities that they know. -/
structure Context.Alike (ctx other : Context) : Prop where
  dialect : ctx.dialect = other.dialect
  registry : ctx.registry = other.registry
  locale : ctx.locale = other.locale
  finds : ctx.locale.isSome = true → ∀ type e, ctx.registry.get? type = some e →
    ctx.memo.localization? e = other.memo.localization? e

namespace Source

theorem resolve_eq_ok_iff {ctx : Context} {base : Entity} {name : String} {localized : Bool}
    {s : Source} :
    resolve ctx base name localized = .ok s ↔ base.relation? name = some s.relation ∧
      ctx.registry.get? s.relation.related = some s.related ∧ s.name = name ∧
      s.localization = localization? ctx s.related localized := by
  unfold resolve
  cases declared : base.relation? name with
  | none => simp
  | some relation =>
    dsimp only
    cases found : ctx.registry.resolve relation.related with
    | error e =>
      have missing : ∀ related, ctx.registry.get? relation.related ≠ some related := by
        intro related known
        rw [Registry.resolve_eq_ok_iff.mpr known] at found
        exact absurd found (by simp)
      simp only [reduceCtorEq, Option.some.injEq, false_iff]
      rintro ⟨rfl, known, -⟩
      exact missing _ known
    | ok related =>
      have known := Registry.resolve_eq_ok_iff.mp found
      obtain ⟨sourceName, sourceRelation, sourceRelated, sourceLocalization⟩ := s
      simp only [Except.ok.injEq, mk.injEq, Option.some.injEq]
      constructor
      · rintro ⟨rfl, rfl, rfl, rfl⟩
        exact ⟨rfl, known, rfl, rfl⟩
      · rintro ⟨rfl, registered, rfl, rfl⟩
        obtain rfl := Option.some.inj (known.symm.trans registered)
        exact ⟨rfl, rfl, rfl, rfl⟩

theorem failure?_andThen {ctx : Context} {base : Entity} {name : String} {localized : Bool}
    {next : Source → Sql.Draft} :
    (andThen ctx base name localized next).failure? = none ↔
      ∃ s, resolve ctx base name localized = .ok s ∧ (next s).failure? = none := by
  have consulted (s : Source) : Sql.Draft.failure? (if localized && ctx.locale.isSome then
      [.consult s.related.type s.localization] else []) = none := by
    split <;> rfl
  simp only [andThen, Sql.Draft.failure?_andThen, Sql.Draft.failure?_append, consulted, true_and]

variable {ctx other : Context} (alike : ctx.Alike other) (base : Entity) (name : String)
  (localized : Bool)
include alike

theorem resolve_congr : resolve ctx base name localized = resolve other base name localized := by
  unfold resolve
  rw [alike.registry]
  cases base.relation? name with
  | none => rfl
  | some relation =>
    dsimp only
    cases found : other.registry.resolve relation.related with
    | error e => rfl
    | ok related =>
      have known := Registry.resolve_eq_ok_iff.mp found
      rw [← alike.registry] at known
      have same : localization? ctx related localized = localization? other related localized := by
        unfold localization?
        rw [alike.locale]
        split
        · rename_i wanted
          rw [Bool.and_eq_true, ← alike.locale] at wanted
          exact alike.finds wanted.2 _ _ known
        · rfl
      simp only [same]

theorem andThen_congr (next : Source → Sql.Draft) :
    andThen ctx base name localized next = andThen other base name localized next := by
  rw [andThen, andThen, resolve_congr alike, alike.locale]

end Source
end EagerLoad
