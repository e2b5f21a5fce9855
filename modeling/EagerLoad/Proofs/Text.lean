import EagerLoad.Text.Blank

/-! # Texts cut at a character

A text that is written up to the first of some characters can be read in one way only. -/
namespace EagerLoad.Text

/-- Two texts that agree are cut alike at the first character of a kind. -/
theorem cut_inj (stops : Char → Prop) {front other : List Char} {c d : Char} {back rest : List Char}
    (clean : ∀ x ∈ front, ¬ stops x) (cleanOther : ∀ x ∈ other, ¬ stops x) (stop : stops c)
    (stopOther : stops d) (same : front ++ c :: back = other ++ d :: rest) :
    front = other ∧ c = d ∧ back = rest := by
  induction front generalizing other with
  | nil => cases other with
    | nil => simpa using same
    | cons y ys =>
      obtain ⟨rfl, -⟩ := List.cons.inj same
      exact absurd stop (cleanOther c List.mem_cons_self)
  | cons x xs ih => cases other with
    | nil =>
      obtain ⟨rfl, -⟩ := List.cons.inj same
      exact absurd stopOther (clean x List.mem_cons_self)
    | cons y ys =>
      obtain ⟨rfl, tails⟩ := List.cons.inj same
      obtain ⟨rfl, rest⟩ := ih (fun z h => clean z (List.mem_cons_of_mem _ h))
        (fun z h => cleanOther z (List.mem_cons_of_mem _ h)) tails
      exact ⟨rfl, rest⟩

/-- Two texts that agree are cut alike at the last character of a kind. -/
theorem cut_last_inj {stop : Char} {front other back rest : List Char} (clean : stop ∉ back)
    (cleanOther : stop ∉ rest) (same : front ++ stop :: back = other ++ stop :: rest) :
    front = other ∧ back = rest := by
  have reversed : back.reverse ++ stop :: front.reverse = rest.reverse ++ stop :: other.reverse := by
    simpa using congrArg List.reverse same
  have here : ∀ x ∈ back.reverse, ¬ x = stop := fun x h e => clean (e ▸ List.mem_reverse.mp h)
  have there : ∀ x ∈ rest.reverse, ¬ x = stop := fun x h e => cleanOther (e ▸ List.mem_reverse.mp h)
  obtain ⟨backs, -, fronts⟩ := cut_inj (· = stop) here there rfl rfl reversed
  exact ⟨List.reverse_inj.mp fronts, List.reverse_inj.mp backs⟩

section Splitting

variable {stop : Char} {text front back : List Char}

theorem splitFirst?_eq_none_iff : splitFirst? stop text = none ↔ stop ∉ text := by
  induction text with
  | nil => simp [splitFirst?]
  | cons c rest ih =>
    rw [splitFirst?, List.mem_cons, not_or]
    by_cases here : c = stop
    · simp [here]
    · simp [here, ih, Ne.symm here]

theorem eq_of_splitFirst? (cut : splitFirst? stop text = some (front, back)) :
    text = front ++ stop :: back ∧ stop ∉ front := by
  induction text generalizing front with
  | nil => exact absurd cut (by simp [splitFirst?])
  | cons c rest ih =>
    rw [splitFirst?] at cut
    split at cut
    case isTrue here =>
      obtain ⟨rfl, rfl⟩ := Prod.mk.inj (Option.some.inj cut)
      exact ⟨by rw [here, List.nil_append], List.not_mem_nil⟩
    case isFalse other =>
      obtain ⟨⟨before, after⟩, later, same⟩ := Option.map_eq_some_iff.mp cut
      obtain ⟨rfl, rfl⟩ := Prod.mk.inj same
      obtain ⟨rfl, free⟩ := ih later
      exact ⟨rfl, fun found => (List.mem_cons.mp found).elim (fun same => other same.symm) free⟩

theorem splitAll_of_notMem (free : stop ∉ text) : splitAll stop text = [text] := by
  induction text with
  | nil => rfl
  | cons c rest ih =>
    rw [List.mem_cons, not_or] at free
    rw [splitAll, if_neg (Ne.symm free.1), ih free.2]

theorem splitAll_append (free : stop ∉ front) (back : List Char) :
    splitAll stop (front ++ stop :: back) = front :: splitAll stop back := by
  induction front with
  | nil => rw [List.nil_append, splitAll, if_pos rfl]
  | cons c rest ih =>
    rw [List.mem_cons, not_or] at free
    rw [List.cons_append, splitAll, if_neg (Ne.symm free.1), ih free.2]

end Splitting

end EagerLoad.Text
