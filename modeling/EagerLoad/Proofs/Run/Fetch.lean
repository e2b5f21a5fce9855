import EagerLoad.Run.Execution

/-! # Having statements executed

The answer to a statement is the executor's. What happens in between, a notice or an invalidation,
leaves the localizations found so far as they are. -/
namespace EagerLoad

/-- One run after another begins in the state that the first one leaves. -/
theorem run_bind (first : Run ε σ α) (next : α → Run ε σ β) (s : State ε σ) :
    (first >>= next) s = next (first s).1 (first s).2 := rfl

/-- An attempt goes on with the result of the one before it, or fails as that one did. -/
theorem attempt_bind (x : Attempt ε σ β) (next : β → Attempt ε σ α) :
    (x >>= next).run = x.run >>= ExceptT.bindCont next := rfl

theorem run_get (s : State ε σ) : (get : Run ε σ (State ε σ)) s = (s, s) := rfl

theorem run_set (new s : State ε σ) : (set new : Run ε σ PUnit) s = (.unit, new) := rfl

theorem run_modify (change : State ε σ → State ε σ) (s : State ε σ) :
    (modify change : Run ε σ PUnit) s = (.unit, change s) := rfl

namespace Optimizer

variable (o : Optimizer ε σ)

theorem invalidate_memo (table : String) (s : State ε σ) :
    ((o.invalidate table) s).2.memo = s.memo := by
  unfold invalidate
  cases o.store with
  | none => rfl
  | some ops =>
    simp only [run_bind, run_modify, run_get, run_set]
    cases (ops.flushTags s.clock [table] s.store).1 <;> rfl

theorem invalidateAll_memo (tables : List String) (s : State ε σ) :
    ((o.invalidateAll tables) s).2.memo = s.memo := by
  induction tables generalizing s with
  | nil => rfl
  | cons table rest ih => exact (ih _).trans (o.invalidate_memo table s)

theorem fetch_answer (statement : Statement) (timeout : Option Duration) (s : State ε σ) :
    ((o.fetch statement timeout) s).1 = (o.executor.fetch statement timeout s.executor).answer := by
  rfl

theorem fetch_memo (statement : Statement) (timeout : Option Duration) (s : State ε σ) :
    ((o.fetch statement timeout) s).2.memo = s.memo := by
  exact o.invalidateAll_memo _ _

theorem fetchLogged_answer (statement : Statement) (timeout : Option Duration) (s : State ε σ) :
    ((o.fetchLogged statement timeout) s).1 =
      (o.executor.fetch statement timeout s.executor).answer := by
  unfold fetchLogged logStatement
  split <;> rfl

theorem executeSingle_of_answer {timeout : Option Duration} {statement : Statement}
    {s : State ε σ} {rows : List Row}
    (answered : (o.executor.fetch statement timeout s.executor).answer = .ok rows) :
    (o.executeSingle statement timeout s).1 = .ok (rows, { statements := 1 }) := by
  rw [executeSingle, run_bind, fetchLogged_answer, answered]
  rfl

end Optimizer
end EagerLoad
