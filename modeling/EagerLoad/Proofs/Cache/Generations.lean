import EagerLoad.Cache.Request
import EagerLoad.Proofs.Ordered

/-! # What a request cache has kept

Many readers share a request cache, and a reader may put its rows long after it has noted the generation.
So an answer depends on everything that was asked before. A past lists this from its latest call on. -/
namespace EagerLoad

/-- Whether something has begun that nothing has ended since, in a past listed from its latest event on. -/
def Since (begins ends : α → Prop) (past : List α) : Prop :=
  ∃ later event earlier, past = later ++ event :: earlier ∧ begins event ∧ ∀ x ∈ later, ¬ends x

section Since

variable {begins ends : α → Prop}

theorem not_since_nil : ¬Since begins ends [] := by
  rintro ⟨later, event, earlier, split, -⟩
  exact absurd split (by simp)

theorem since_cons {event : α} {past : List α} :
    Since begins ends (event :: past) ↔ begins event ∨ ¬ends event ∧ Since begins ends past := by
  constructor
  · rintro ⟨later, first, earlier, split, begun, kept⟩
    cases later with
    | nil =>
      obtain ⟨rfl, -⟩ := List.cons.inj split
      exact .inl begun
    | cons x later =>
      obtain ⟨rfl, rfl⟩ := List.cons.inj split
      have here : ¬ends event := kept event List.mem_cons_self
      have below : ∀ x ∈ later, ¬ends x := fun x found => kept x (List.mem_cons_of_mem event found)
      exact .inr ⟨here, later, first, earlier, rfl, begun, below⟩
  · rintro (begun | ⟨here, later, first, earlier, rfl, begun, kept⟩)
    · exact ⟨[], event, past, rfl, begun, by simp⟩
    · exact ⟨event :: later, first, earlier, rfl, begun, List.forall_mem_cons.mpr ⟨here, kept⟩⟩

/-- What neither begins nor ends anything may be left out. -/
theorem since_cons_of_idle {event : α} {past : List α} (starts : ¬begins event) (stops : ¬ends event) :
    Since begins ends (event :: past) ↔ Since begins ends past := by
  rw [since_cons]
  tauto

end Since

namespace RequestCache

/-- What is asked of a request cache, and what it answers. -/
inductive Call where
  | generation (noted : Nat)
  | put (key : String) (rows : List Row) (observed : Nat) (accepted : Bool)
  | get (key : String) (found : Option (List Row))
  | forget (key : String) (present : Bool)
  | clear

namespace Call

/-- Whether a call keeps rows under a key. -/
def Keeps (key : String) (rows : List Row) : Call → Prop
  | put k kept _ accepted => k = key ∧ kept = rows ∧ accepted = true
  | _ => False

/-- Whether a call leaves nothing of what was kept under a key before. -/
def Drops (key : String) : Call → Prop
  | put k _ _ accepted => k = key ∧ accepted = true
  | forget k _ => k = key
  | clear => True
  | _ => False

end Call

/-- The calls to a new cache, the latest one first, and what they have made of it. They come from any
number of readers in any order. Rows are put with a generation that some reader has noted. -/
inductive History : List Call → RequestCache → Prop
  | start : History [] {}
  | generation {past c} (earlier : History past c) : History (.generation c.generation :: past) c
  | put {past c} (earlier : History past c) (key : String) (rows : List Row) {observed : Nat}
      (noted : .generation observed ∈ past) :
      History (.put key rows observed (c.put key rows observed).2 :: past)
        (c.put key rows observed).1
  | get {past c} (earlier : History past c) (key : String) :
      History (.get key (c.get? key) :: past) c
  | forget {past c} (earlier : History past c) (key : String) :
      History (.forget key (c.forget key).2 :: past) (c.forget key).1
  | clear {past c} (earlier : History past c) : History (.clear :: past) c.clear

variable {past : List Call} {c : RequestCache}

theorem generation_put (c : RequestCache) (key : String) (rows : List Row) (observed : Nat) :
    (c.put key rows observed).1.generation = c.generation := by
  unfold put
  split <;> rfl

theorem put_accepted_iff {key : String} {rows : List Row} {observed : Nat} :
    (c.put key rows observed).2 = true ↔ observed = c.generation := by
  unfold put
  split
  · rename_i current
    exact iff_of_true rfl current
  · rename_i stale
    exact iff_of_false Bool.false_ne_true stale

theorem get?_put (c : RequestCache) (key x : String) (rows : List Row) (observed : Nat) :
    (c.put key rows observed).1.get? x =
      if x = key ∧ (c.put key rows observed).2 = true then some rows else c.get? x := by
  unfold put
  by_cases current : observed = c.generation
  · simp only [if_pos current, get?, lookup_upsert, and_true]
  · simp [if_neg current]

theorem get?_forget (c : RequestCache) (key x : String) :
    (c.forget key).1.get? x = if x = key then none else c.get? x := by
  have kept := lookup_filter_key (fun k => k != key) c.entries x
  by_cases same : x = key
  · simpa [forget, get?, same] using kept
  · simpa [forget, get?, same] using kept

theorem get?_clear (c : RequestCache) (x : String) : c.clear.get? x = none := rfl

/-- A generation that was noted is over as soon as the cache is cleared. -/
theorem History.noted_iff (history : History past c) {noted : Nat}
    (known : .generation noted ∈ past) :
    noted ≤ c.generation ∧
      (Since (· = .generation noted) (· = .clear) past ↔ noted = c.generation) := by
  induction history with
  | start => exact absurd known List.not_mem_nil
  | @generation past c _ ih =>
    by_cases current : noted = c.generation
    · subst current
      exact ⟨Nat.le_refl _, iff_of_true (since_cons.mpr (.inl rfl)) rfl⟩
    · have other : Call.generation c.generation ≠ .generation noted :=
        fun same => current (Call.generation.inj same).symm
      have before := (List.mem_cons.mp known).resolve_left (Ne.symm other)
      have idle : Since (· = .generation noted) (· = .clear) (.generation c.generation :: past) ↔
          Since (· = .generation noted) (· = .clear) past := since_cons_of_idle other nofun
      rw [idle]
      exact ih before
  | put _ key rows _ ih =>
    have before := (List.mem_cons.mp known).resolve_left nofun
    rw [generation_put, since_cons_of_idle nofun nofun]
    exact ih before
  | get _ key ih =>
    have before := (List.mem_cons.mp known).resolve_left nofun
    rw [since_cons_of_idle nofun nofun]
    exact ih before
  | forget _ key ih =>
    have before := (List.mem_cons.mp known).resolve_left nofun
    rw [since_cons_of_idle nofun nofun]
    exact ih before
  | @clear past c _ ih =>
    have before := (List.mem_cons.mp known).resolve_left nofun
    obtain ⟨reached, -⟩ := ih before
    have stale : ¬Since (· = .generation noted) (· = .clear) (.clear :: past) := by
      rw [since_cons]
      exact fun going => going.elim nofun fun still => still.1 rfl
    exact ⟨Nat.le_succ_of_le reached, iff_of_false stale (Nat.ne_of_lt (Nat.lt_succ_of_le reached))⟩

/-- What is read under a key was kept there, and nothing that drops it was called since. -/
theorem History.get?_iff (history : History past c) (key : String) (rows : List Row) :
    c.get? key = some rows ↔ Since (Call.Keeps key rows) (Call.Drops key) past := by
  induction history with
  | start => exact iff_of_false nofun not_since_nil
  | generation _ ih => rwa [since_cons_of_idle id id]
  | get _ _ ih => rwa [since_cons_of_idle id id]
  | clear _ _ =>
    rw [get?_clear, since_cons]
    simp [Call.Keeps, Call.Drops]
  | forget _ dropped ih =>
    rw [get?_forget, since_cons]
    by_cases same : key = dropped
    · simp [Call.Keeps, Call.Drops, same]
    · simp [Call.Keeps, Call.Drops, same, Ne.symm same, ih]
  | @put past c _ kept fresh observed _ ih =>
    rw [get?_put, since_cons]
    by_cases replaced : kept = key ∧ (c.put kept fresh observed).2 = true
    · obtain ⟨rfl, accepted⟩ := replaced
      simp [Call.Keeps, Call.Drops, accepted]
    · have silent : ¬Call.Keeps key rows (.put kept fresh observed (c.put kept fresh observed).2) :=
        fun ⟨same, _, accepted⟩ => replaced ⟨same, accepted⟩
      have apart : ¬(key = kept ∧ (c.put kept fresh observed).2 = true) :=
        fun ⟨same, accepted⟩ => replaced ⟨same.symm, accepted⟩
      rw [if_neg apart, ih]
      exact (or_iff_right silent |>.trans (and_iff_right replaced)).symm

namespace Readers

def old : List Row := [[("title", .str "old")]]

def fresh : List Row := [[("title", .str "fresh")]]

/-- Two readers note the first generation and one of them puts its rows. Then the cache is cleared, and a
third reader puts the rows that it finds now. -/
def calls : List Call :=
  [.put "articles" fresh 1 true, .generation 1, .clear, .put "articles" old 0 true, .generation 0,
    .generation 0]

def cache : RequestCache := { entries := [("articles", fresh)], generation := 1 }

theorem made : History calls cache := by
  have first : History [.put "articles" old 0 true, .generation 0, .generation 0]
      ⟨[("articles", old)], 0⟩ :=
    .put (.generation (.generation .start)) "articles" old List.mem_cons_self
  exact .put (.generation first.clear) "articles" fresh List.mem_cons_self

end Readers

end RequestCache
end EagerLoad
