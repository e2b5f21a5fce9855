import EagerLoad.Proofs.Relation.Keyed
import EagerLoad.Proofs.Relation.Worded
import EagerLoad.Proofs.Sql.Diverging

/-! # How the items of a select list begin

The item of a relation begins differently from that of a count or an aggregate, on every dialect, so a
select list shows where its relations end. -/
namespace EagerLoad.Subquery

open Sql Sql.Draft

/-- How the item of a relation begins that is written as an object, or aggregated into an array. -/
def opening (d : Dialect) : Shape → List Char
  | .one => "(SELECT ".toList ++ d.objectFunction.toList ++ ['(']
  | .many => "(SELECT ".toList ++ d.arrayAggregate.1.toList

theorem opening_one (d : Dialect) :
    opening d .one = "(SELECT ".toList ++ d.objectFunction.toList ++ ['('] := rfl

theorem opening_many (d : Dialect) :
    opening d .many = "(SELECT ".toList ++ d.arrayAggregate.1.toList := rfl

def relationOpenings (d : Dialect) : List (List Char) :=
  ["(SELECT ".toList ++ d.objectFunction.toList ++ ['('], "(SELECT ".toList ++ d.arrayAggregate.1.toList]

def scalarOpenings : List (List Char) :=
  ["(SELECT COUNT(*)".toList, "(SELECT SUM(".toList, "(SELECT AVG(".toList, "(SELECT MIN(".toList,
    "(SELECT MAX(".toList]

theorem objectFunction_mem (d : Dialect) :
    d.objectFunction ∈ ["json_build_object", "json_object", "JSON_OBJECT"] := by
  cases d <;> simp [Dialect.objectFunction]

theorem arrayAggregate_mem (d : Dialect) :
    d.arrayAggregate.1 ∈ ["COALESCE(json_agg(", "COALESCE(json_group_array(",
      "COALESCE(JSON_ARRAYAGG(", "COALESCE(CONCAT('[', GROUP_CONCAT("] := by
  unfold Dialect.arrayAggregate
  split
  · simp
  · simp
  · split <;> simp

theorem openings_diverge (d : Dialect) :
    ∀ a ∈ relationOpenings d, ∀ b ∈ scalarOpenings, diverge a b = true := by
  have objects : ∀ f ∈ ["json_build_object", "json_object", "JSON_OBJECT"], ∀ b ∈ scalarOpenings,
      diverge ("(SELECT ".toList ++ f.toList ++ ['(']) b = true := by decide
  have arrays : ∀ f ∈ ["COALESCE(json_agg(", "COALESCE(json_group_array(",
      "COALESCE(JSON_ARRAYAGG(", "COALESCE(CONCAT('[', GROUP_CONCAT("], ∀ b ∈ scalarOpenings,
      diverge ("(SELECT ".toList ++ f.toList) b = true := by decide
  intro a found b known
  obtain rfl | rfl := List.mem_pair.mp found
  · exact objects _ (objectFunction_mem d) b known
  · exact arrays _ (arrayAggregate_mem d) b known

/-- An object and an array do not begin alike. -/
theorem opening_diverge (d : Dialect) : diverge (opening d .one) (opening d .many) = true := by
  have apart : ∀ f ∈ ["json_build_object", "json_object", "JSON_OBJECT"],
      ∀ g ∈ ["COALESCE(json_agg(", "COALESCE(json_group_array(",
        "COALESCE(JSON_ARRAYAGG(", "COALESCE(CONCAT('[', GROUP_CONCAT("],
      diverge ("(SELECT ".toList ++ f.toList ++ ['(']) ("(SELECT ".toList ++ g.toList) = true := by
    decide
  exact apart _ (objectFunction_mem d) _ (arrayAggregate_mem d)

/-- A text shows by its beginning which of both it is. -/
theorem opening_prefix_iff {d : Dialect} {shape other : Shape} {text rest : List Char}
    (opens : text = opening d shape ++ rest) : opening d other <+: text ↔ shape = other := by
  constructor
  · rintro ⟨more, same⟩
    by_contra different
    have apart : diverge (opening d shape) (opening d other) = true := by
      cases shape <;> cases other
      · exact absurd rfl different
      · exact opening_diverge d
      · rw [diverge_comm]
        exact opening_diverge d
      · exact absurd rfl different
    have itself : diverge text text = true := by
      have more := diverge_more apart rest more
      rwa [same, ← opens] at more
    have never := diverge_append text [] []
    rw [List.append_nil, itself] at never
    exact absurd never (by decide)
  · rintro rfl
    exact ⟨rest, opens.symm⟩

theorem relationOpenings_paren {d : Dialect} {opening : List Char}
    (known : opening ∈ relationOpenings d) : ∃ rest, opening = '(' :: rest := by
  have select : "(SELECT ".toList = '(' :: "SELECT ".toList := by decide
  obtain rfl | rfl := List.mem_pair.mp known
  · exact ⟨"SELECT ".toList ++ d.objectFunction.toList ++ ['('], by rw [select]; rfl⟩
  · exact ⟨"SELECT ".toList ++ d.arrayAggregate.1.toList, by rw [select]; rfl⟩

variable {d : Dialect} {ctx : Context} {base : Entity} {baseAlias : String}

/-- The item of a relation begins as its shape wants it to. -/
theorem relation_opens_as {r : RelationRequest}
    (complete : (relation ctx base baseAlias r).failure? = none) :
    ∃ shape, r.shape base = .ok shape ∧
      ∃ rest, (relation ctx base baseAlias r).text d = opening ctx.dialect shape ++ rest := by
  unfold relation at complete ⊢
  obtain ⟨segments, cut, complete⟩ := failure?_andThen.mp complete
  obtain ⟨s, resolved, complete⟩ := Source.failure?_andThen.mp complete
  obtain ⟨columns, projection, rest⟩ := RelationRequest.failure?_withProjection.mp complete
  obtain ⟨shape, shaped, -⟩ := failure?_andThen.mp rest
  refine ⟨shape, shaped, ?_⟩
  rw [cut, andThen, Source.text_andThen base resolved,
    RelationRequest.text_withProjection projection, shaped, andThen]
  have select : "(SELECT ".toList = '(' :: "SELECT ".toList := by decide
  cases shape with
  | one =>
    rw [opening_one, select]
    simp [single, Columns.object, Step.sql]
  | many =>
    rw [opening_many, select]
    dsimp only
    unfold collection
    split
    · simp [plainCollection, arrayOf, Step.sql]
    · simp [derivedCollection, arrayOf, Step.sql]

theorem relation_opens {r : RelationRequest}
    (complete : (relation ctx base baseAlias r).failure? = none) :
    ∃ opening ∈ relationOpenings ctx.dialect, ∃ rest,
      (relation ctx base baseAlias r).text d = opening ++ rest := by
  obtain ⟨shape, -, rest, opens⟩ := relation_opens_as (d := d) complete
  refine ⟨opening ctx.dialect shape, ?_, rest, opens⟩
  cases shape with
  | one => exact List.mem_cons_self
  | many => exact List.mem_cons_of_mem _ List.mem_cons_self

theorem count_opens {c : CountRequest} (complete : (count ctx base baseAlias c).failure? = none) :
    ∃ opening ∈ scalarOpenings, ∃ rest, (count ctx base baseAlias c).text d = opening ++ rest := by
  obtain ⟨s, resolved, -⟩ := count_parts complete
  refine ⟨_, List.mem_cons_self, ?_⟩
  rw [count, Source.text_andThen base resolved]
  simp [Step.sql]

theorem aggregate_opens {a : AggregateRequest}
    (complete : (aggregate ctx base baseAlias a).failure? = none) :
    ∃ opening ∈ scalarOpenings, ∃ rest,
      (aggregate ctx base baseAlias a).text d = opening ++ rest := by
  obtain ⟨s, resolved, -⟩ := aggregate_parts complete
  have named : ¬Text.isBlankText a.column = true := by
    intro blank
    rw [aggregate, if_pos blank] at complete
    exact absurd complete (by simp [Step.failure?])
  have opening : "(SELECT ".toList ++ (a.function.sql.toList ++ ['(']) ∈ scalarOpenings := by
    cases a.function <;> decide
  refine ⟨_, opening, ?_⟩
  rw [aggregate, if_neg named, Source.text_andThen base resolved]
  simp [aggregateCall, Step.sql]

end EagerLoad.Subquery
