import EagerLoad.Query.Call

/-! # What the clauses of a filter say

A list of clauses is read as a database reads it: AND binds more tightly than OR, the first
connective counts for nothing, a group stands in parentheses, and no clauses say nothing. Merging
puts the second filter under the last alternative of the first one, so the filters are both required
unless an earlier alternative holds without the second filter. -/
namespace EagerLoad

mutual

/-- Whether a condition holds, given which conditions other than groups do. -/
def Condition.holds (truth : Condition → Bool) : Condition → Bool
  | .group clauses => clausesHold truth clauses
  | condition => truth condition

def clausesHold (truth : Condition → Bool) : List Clause → Bool
  | [] => true
  | (_, condition) :: rest => clausesHoldAfter truth (condition.holds truth) rest

/-- Whether clauses hold after a conjunction that is still open. -/
def clausesHoldAfter (truth : Condition → Bool) (run : Bool) : List Clause → Bool
  | [] => run
  | (.and, condition) :: rest => clausesHoldAfter truth (run && condition.holds truth) rest
  | (.or, condition) :: rest => run || clausesHoldAfter truth (condition.holds truth) rest

end

/-- The conjunctions that OR separates, the first of them begun already. -/
def alternativesAfter (run : List Condition) : List Clause → List (List Condition)
  | [] => [run]
  | (.and, condition) :: rest => alternativesAfter (run ++ [condition]) rest
  | (.or, condition) :: rest => run :: alternativesAfter [condition] rest

def alternatives : List Clause → List (List Condition)
  | [] => [[]]
  | (_, condition) :: rest => alternativesAfter [condition] rest

def alternativeHolds (truth : Condition → Bool) (alternative : List Condition) : Bool :=
  alternative.all fun condition => condition.holds truth

theorem alternativeHolds_append (truth : Condition → Bool) (first second : List Condition) :
    alternativeHolds truth (first ++ second) =
      (alternativeHolds truth first && alternativeHolds truth second) := by
  simp [alternativeHolds]

private theorem clausesHoldAfter_eq_any (truth : Condition → Bool) (run : List Condition)
    (clauses : List Clause) :
    clausesHoldAfter truth (alternativeHolds truth run) clauses =
      (alternativesAfter run clauses).any (alternativeHolds truth) := by
  induction clauses generalizing run with
  | nil => simp [clausesHoldAfter, alternativesAfter]
  | cons clause rest ih =>
    obtain ⟨connective, condition⟩ := clause
    cases connective with
    | and =>
      rw [clausesHoldAfter, alternativesAfter, ← ih, alternativeHolds_append]
      simp [alternativeHolds]
    | or =>
      rw [clausesHoldAfter, alternativesAfter, List.any_cons, ← ih]
      simp [alternativeHolds]

/-- Clauses hold when all conditions of one of their alternatives do. -/
theorem clausesHold_eq_any (truth : Condition → Bool) (clauses : List Clause) :
    clausesHold truth clauses = (alternatives clauses).any (alternativeHolds truth) := by
  cases clauses with
  | nil => simp [clausesHold, alternatives, alternativeHolds]
  | cons clause rest =>
    obtain ⟨_, condition⟩ := clause
    rw [clausesHold, alternatives, ← clausesHoldAfter_eq_any]
    simp [alternativeHolds]

private theorem alternativesAfter_concat (run : List Condition) (clauses : List Clause) :
    ∃ earlier last, alternativesAfter run clauses = earlier ++ [last] ∧
      ∀ condition, alternativesAfter run (clauses ++ [(.and, condition)]) =
        earlier ++ [last ++ [condition]] := by
  induction clauses generalizing run with
  | nil => exact ⟨[], run, rfl, fun _ => rfl⟩
  | cons clause rest ih =>
    obtain ⟨connective, condition⟩ := clause
    cases connective with
    | and => exact ih (run ++ [condition])
    | or =>
      obtain ⟨earlier, last, here, there⟩ := ih [condition]
      refine ⟨run :: earlier, last, ?_, fun added => ?_⟩
      · rw [alternativesAfter, here, List.cons_append]
      · rw [List.cons_append, alternativesAfter, there, List.cons_append]

/-- A condition added with AND goes to the last alternative. -/
theorem alternatives_concat (clauses : List Clause) :
    ∃ earlier last, alternatives clauses = earlier ++ [last] ∧
      ∀ condition, alternatives (clauses ++ [(.and, condition)]) =
        earlier ++ [last ++ [condition]] := by
  cases clauses with
  | nil => exact ⟨[], [], rfl, fun _ => rfl⟩
  | cons clause rest => exact alternativesAfter_concat [clause.2] rest

namespace Filter

def holds (f : Filter) (truth : Condition → Bool) : Bool := clausesHold truth f.clauses

/-- Whether an alternative before the last one holds. -/
def holdsEarlier (f : Filter) (truth : Condition → Bool) : Bool :=
  (alternatives f.clauses).dropLast.any (alternativeHolds truth)

/-- What a filter says once a condition is added with AND: an earlier alternative holds, or the
filter and the condition do. -/
theorem holds_and (f : Filter) (condition : Condition) (truth : Condition → Bool) :
    (f.and condition).holds truth =
      (f.holdsEarlier truth || (f.holds truth && condition.holds truth)) := by
  obtain ⟨earlier, last, here, there⟩ := alternatives_concat f.clauses
  have added : (f.and condition).clauses = f.clauses ++ [(.and, condition)] := rfl
  rw [holds, holds, holdsEarlier, clausesHold_eq_any, clausesHold_eq_any, added, here, there,
    List.dropLast_concat]
  simp only [List.any_append, List.any_cons, List.any_nil, Bool.or_false, alternativeHolds_append]
  have single : alternativeHolds truth [condition] = condition.holds truth := by
    simp [alternativeHolds]
  rw [single]
  cases earlier.any (alternativeHolds truth) <;> simp

theorem holds_of_holdsEarlier (f : Filter) (truth : Condition → Bool)
    (h : f.holdsEarlier truth = true) : f.holds truth = true := by
  rw [holds, clausesHold_eq_any]
  rw [holdsEarlier, List.any_eq_true] at h
  obtain ⟨alternative, found, all⟩ := h
  exact List.any_eq_true.mpr ⟨alternative, List.dropLast_subset _ found, all⟩

theorem holds_merge (f g : Filter) (truth : Condition → Bool) :
    (f.merge g).holds truth =
      ((f.holdsEarlier truth && !g.holds truth) || (f.holds truth && g.holds truth)) := by
  by_cases second : g.clauses = []
  · simp [holds, merge, mergeClauses, second, clausesHold]
  · by_cases first : f.clauses = []
    · have earlier : f.holdsEarlier truth = false := by rw [holdsEarlier, first]; rfl
      simp [holds, merge, mergeClauses, second, first, clausesHold, earlier]
    · have added : (f.merge g).holds truth = (f.and (.group g.clauses)).holds truth := by
        simp [holds, merge, mergeClauses, second, first, and, add]
      have group : (Condition.group g.clauses).holds truth = g.holds truth := by
        rw [Condition.holds, holds]
      rw [added, holds_and, group]
      cases earlier : f.holdsEarlier truth with
      | false => simp
      | true =>
        rw [holds_of_holdsEarlier f truth earlier]
        cases g.holds truth <;> rfl

/-- Clauses that are all joined by AND are one alternative. -/
theorem holdsEarlier_of_and (f : Filter) (truth : Condition → Bool)
    (joined : ∀ clause ∈ f.clauses.tail, clause.1 = .and) : f.holdsEarlier truth = false := by
  have one (run : List Condition) (clauses : List Clause)
      (joined : ∀ clause ∈ clauses, clause.1 = .and) :
      (alternativesAfter run clauses).dropLast = [] := by
    induction clauses generalizing run with
    | nil => rfl
    | cons clause rest ih =>
      obtain ⟨connective, condition⟩ := clause
      obtain rfl : connective = .and := joined (connective, condition) (by simp)
      exact ih _ fun clause found => joined clause (by simp [found])
  rw [holdsEarlier]
  cases h : f.clauses with
  | nil => rfl
  | cons clause rest =>
    rw [alternatives, one [clause.2] rest fun clause found => joined clause (by simpa [h] using found)]
    rfl

/-- A merged filter requires both filters exactly if no alternative of the first one before its last
holds without the second one, as when AND joins all its clauses. Exactly then a query to which a
filter is added lets through no row that this filter rejects. -/
theorem merge_requires_both_iff (f g : Filter) (truth : Condition → Bool) :
    ((f.merge g).holds truth = (f.holds truth && g.holds truth) ↔
      (f.holdsEarlier truth = true → g.holds truth = true)) ∧
    ((∀ clause ∈ f.clauses.tail, clause.1 = .and) →
      (f.merge g).holds truth = (f.holds truth && g.holds truth)) ∧
    ∀ p : Plan,
      (((QueryCall.filter (.mergeWith g)).apply p).filter.holds truth = true →
          g.holds truth = true) ↔
        (p.filter.holdsEarlier truth = true → g.holds truth = true) := by
  refine ⟨?_, fun joined => ?_, fun p => ?_⟩
  · have earlier := holds_of_holdsEarlier f truth
    rw [holds_merge]
    cases h : f.holdsEarlier truth <;> cases g.holds truth <;> simp_all
  · rw [holds_merge, holdsEarlier_of_and f truth joined, Bool.false_and, Bool.false_or]
  · have earlier := holds_of_holdsEarlier p.filter truth
    have applied : ((QueryCall.filter (.mergeWith g)).apply p).filter = p.filter.merge g := rfl
    rw [applied, holds_merge]
    cases h : p.filter.holdsEarlier truth <;> cases g.holds truth <;> simp_all

/-- A row of another tenant passes a filter that is merged after an OR. -/
theorem merge_after_or_widens :
    let visible := (({} : Filter).and (.compare "owner" .equal (.int32 1))).or
      (.compare "public" .equal (.bool true))
    let tenant := ({} : Filter).and (.compare "tenant" .equal (.int32 7))
    let truth : Condition → Bool
      | .compare column _ _ => column = "owner"
      | _ => false
    (visible.merge tenant).holds truth = true ∧ tenant.holds truth = false := by
  decide

end Filter
end EagerLoad
