import Mathlib.Data.List.Forall2
import EagerLoad.Proofs.Run.Fetch
import EagerLoad.Proofs.Sql.Draft
import EagerLoad.Run.Fallback

/-! # Attempts that succeed

What an attempt returns and the state that it leaves are described together. One attempt after another
succeeds if the second does whatever the first one returns. -/
namespace EagerLoad

/-- Whether an attempt succeeds with a result and a state of which something holds. -/
def Returns (x : Attempt ε σ α) (s : State ε σ) (post : α → State ε σ → Prop) : Prop :=
  ∃ a s', x.run s = (.ok a, s') ∧ post a s'

namespace Returns

variable {s : State ε σ}

theorem pure {q : α → State ε σ → Prop} {a : α} (h : q a s) :
    Returns (Pure.pure a : Attempt ε σ α) s q :=
  ⟨a, s, rfl, h⟩

theorem bind {x : Attempt ε σ α} {next : α → Attempt ε σ β} {mid : α → State ε σ → Prop}
    {q : β → State ε σ → Prop} (first : Returns x s mid)
    (rest : ∀ a s', mid a s' → Returns (next a) s' q) : Returns (x >>= next) s q := by
  obtain ⟨a, s', ran, holds⟩ := first
  obtain ⟨b, s'', continued, reached⟩ := rest a s' holds
  refine ⟨b, s'', ?_, reached⟩
  rw [attempt_bind, run_bind, ran]
  exact continued

theorem lift {x : Run ε σ α} {q : α → State ε σ → Prop} (h : q (x s).1 (x s).2) :
    Returns (ExceptT.lift x) s q :=
  ⟨(x s).1, (x s).2, rfl, h⟩

theorem bind_get {next : State ε σ → Attempt ε σ β} {q : β → State ε σ → Prop}
    (rest : Returns (next s) s q) : Returns (MonadState.get >>= next) s q :=
  rest

theorem mono {x : Attempt ε σ α} {mid q : α → State ε σ → Prop} (h : Returns x s mid)
    (weaker : ∀ a s', mid a s' → q a s') : Returns x s q := by
  obtain ⟨a, s', ran, holds⟩ := h
  exact ⟨a, s', ran, weaker a s' holds⟩

/-- What every step of a loop adds to, the whole loop adds all of its items to. -/
theorem foldlM {items : List α} {step : β → α → Attempt ε σ β} {entry : α → γ}
    {invariant : List γ → β → State ε σ → Prop}
    (each : ∀ item ∈ items, ∀ added b s, invariant added b s →
      Returns (step b item) s (invariant (entry item :: added)))
    {added : List γ} {b : β} (h : invariant added b s) :
    Returns (items.foldlM step b) s (invariant ((items.map entry).reverse ++ added)) := by
  induction items generalizing added b s with
  | nil => exact pure h
  | cons item rest ih =>
    rw [List.foldlM_cons]
    refine bind (each item (by simp) added b s h) fun b' s' here => ?_
    have later := ih (fun other found => each other (by simp [found])) here
    rw [List.map_cons, List.reverse_cons, List.append_assoc]
    exact later

/-- Steps that each do their part of what remains do all of it. -/
theorem mapM {items : List γ} {step : γ → Attempt ε σ β} (post : γ → β → Prop)
    (invariant : List γ → State ε σ → Prop)
    (each : ∀ item rest s, invariant (item :: rest) s →
      Returns (step item) s fun b s' => post item b ∧ invariant rest s')
    (h : invariant items s) :
    Returns (items.mapM step) s fun results s' =>
      List.Forall₂ post items results ∧ invariant [] s' := by
  induction items generalizing s with
  | nil => exact pure ⟨.nil, h⟩
  | cons item rest ih =>
    rw [List.mapM_cons]
    refine bind (each item rest s h) fun b s' first => ?_
    refine bind (ih first.2) fun results s'' others => ?_
    exact pure ⟨.cons first.1 others.1, others.2⟩

end Returns

namespace Fallback

theorem bind_compileStep {x : Except CompileError α} {a : α} (h : x = .ok a)
    {next : α → Attempt ε σ β} {s : State ε σ} {q : β → State ε σ → Prop}
    (rest : Returns (next a) s q) : Returns (compileStep x >>= next) s q := by
  subst h
  exact rest

theorem fetchDraft_returns {o : Optimizer ε σ} {timeout : Option Duration} {draft : Sql.Draft}
    {post : List Row → Prop} (complete : draft.failure? = none)
    (answered : ∀ statement, Statement.ofDraft o.executor.dialect draft = .ok statement →
      ∀ e, ∃ rows, (o.executor.fetch statement timeout e).answer = .ok rows ∧ post rows)
    (s : State ε σ) :
    Returns (fetchDraft o timeout draft) s fun rows s' =>
      post rows ∧ s'.memo = (Run.follow draft s).2.memo := by
  have written : Statement.ofDraft o.executor.dialect draft =
      .ok (Statement.ofFragment o.executor.dialect (draft.fragment o.executor.dialect)) :=
    (Sql.Draft.ofDraft_eq_ok_iff _ _ _).mpr ⟨complete, rfl⟩
  generalize Statement.ofFragment _ _ = statement at written
  unfold fetchDraft
  refine Returns.bind (Returns.lift (q := fun _ s' => s' = (Run.follow draft s).2) rfl)
    fun _ s' followed => ?_
  refine bind_compileStep written ?_
  obtain ⟨rows, answer, holds⟩ := answered statement written s'.executor
  have reply : ((o.fetch statement timeout) s').1 = .ok rows := by
    rw [o.fetch_answer, answer]
  have memo := o.fetch_memo statement timeout s'
  refine Returns.bind (Returns.lift (q := fun reply s'' => reply = .ok rows ∧
    s''.memo = (Run.follow draft s).2.memo) ⟨reply, ?_⟩) fun found last both => ?_
  · rw [memo, followed]
  · obtain ⟨rfl, kept⟩ := both
    exact Returns.pure ⟨holds, kept⟩

end Fallback
end EagerLoad
