import EagerLoad.Proofs.Cache.Store
import EagerLoad.Proofs.Run.Maintained
import EagerLoad.Run.Observer

/-! # What runs do to the caches

Only three steps of a run meet the caches: it looks up its key when it begins, it keeps its rows when
they are published, and an invalidation clears what it was told of. All else leaves both caches as they
are, as long as the executor reports no table as written to. -/
namespace EagerLoad

/-- Whether a run leaves both caches as they are. -/
def Keeps (x : Run ε σ α) : Prop :=
  ∀ s, (x s).2.request = s.request ∧ (x s).2.store = s.store

namespace Keeps

theorem pure (a : α) : Keeps (Pure.pure a : Run ε σ α) := fun _ => ⟨rfl, rfl⟩

theorem bind {x : Run ε σ α} {next : α → Run ε σ β} (first : Keeps x)
    (rest : ∀ a, Keeps (next a)) : Keeps (x >>= next) := by
  intro s
  obtain ⟨request, store⟩ := rest (x s).1 (x s).2
  exact ⟨request.trans (first s).1, store.trans (first s).2⟩

theorem note (n : Notice) : Keeps (Run.note n : Run ε σ Unit) := fun _ => ⟨rfl, rfl⟩

theorem noteAll (ns : List Notice) : Keeps (Run.noteAll ns : Run ε σ Unit) := fun _ => ⟨rfl, rfl⟩

theorem follow (draft : Sql.Draft) : Keeps (Run.follow draft : Run ε σ Unit) :=
  fun _ => ⟨rfl, rfl⟩

end Keeps

/-- Whether an executor never reports that a table was written to. -/
def Executor.ReadsOnly (x : Executor ε) : Prop :=
  ∀ statement timeout e, (x.fetch statement timeout e).written = []

namespace Optimizer

variable {o : Optimizer ε σ}

theorem keeps_fetch (reads : o.executor.ReadsOnly) (statement : Statement)
    (timeout : Option Duration) : Keeps (o.fetch statement timeout) := by
  intro s
  simp only [fetch, run_bind, run_get, run_set, reads statement timeout s.executor, invalidateAll]
  exact ⟨rfl, rfl⟩

/-- What leaves the caches of one state after another as they are keeps them. -/
theorem keeps_of_maintains {x : Run ε σ α}
    (h : ∀ s : State ε σ, Maintains (fun t => t.request = s.request ∧ t.store = s.store) x) :
    Keeps x := fun s => h s s ⟨rfl, rfl⟩

theorem maintains_fetch (reads : o.executor.ReadsOnly) (s : State ε σ) (statement : Statement)
    (timeout : Option Duration) :
    Maintains (fun t => t.request = s.request ∧ t.store = s.store) (o.fetch statement timeout) := by
  intro t kept
  obtain ⟨request, store⟩ := keeps_fetch reads statement timeout t
  exact ⟨request.trans kept.1, store.trans kept.2⟩

theorem keeps_execute (reads : o.executor.ReadsOnly) (p : Plan) (compiled : CompiledPlan) :
    Keeps (o.execute p compiled) :=
  keeps_of_maintains fun s =>
    .execute (maintains_fetch reads s) (fun _ _ kept => kept) p compiled

theorem keeps_recover (reads : o.executor.ReadsOnly) (p : Plan) (layout : Layout)
    (e : ExecutionError) : Keeps (o.recover p layout e) :=
  keeps_of_maintains fun s =>
    .recover (maintains_fetch reads s) (fun _ _ kept => kept) (fun _ _ kept => kept) p layout e

end Optimizer
end EagerLoad
