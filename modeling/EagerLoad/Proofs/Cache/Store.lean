import EagerLoad.Cache.Store
import EagerLoad.Proofs.Ordered

/-! # What a memory store keeps

An entry may be written under several tags, and goes as soon as one of them is flushed. Whatever holds
of all entries with one of the tags they are registered under goes on to hold: reading and purging only
take entries away, and a purge takes no registration from an entry that it keeps. -/
namespace EagerLoad.MemoryStore

def registered (s : MemoryStore) (tag : String) : List String := (s.tags.lookup tag).getD []

/-- Whether something holds of every entry with a tag that it is registered under. -/
def Backed (holds : String → String → String → Prop) (s : MemoryStore) : Prop :=
  ∀ key e, (key, e) ∈ s.entries → ∃ tag, key ∈ s.registered tag ∧ holds tag key e.text

variable {holds : String → String → String → Prop} {s : MemoryStore}

theorem backed_empty : Backed holds {} := fun _ _ h => absurd h (by simp)

theorem Backed.mono {weaker : String → String → String → Prop} (h : s.Backed holds)
    (implied : ∀ tag key text, holds tag key text → weaker tag key text) : s.Backed weaker := by
  intro key e kept
  obtain ⟨tag, listed, held⟩ := h key e kept
  exact ⟨tag, listed, implied tag key e.text held⟩

/-- Fewer entries with the same registrations are still backed. -/
theorem Backed.filter (h : s.Backed holds) (keep : String × StoreEntry → Bool) :
    Backed holds { s with entries := s.entries.filter keep } :=
  fun key e kept => h key e ((List.mem_filter.mp kept).1)

theorem Backed.get (h : s.Backed holds) (now : Clock) (key : String) :
    (s.get now key).2.Backed holds := by
  unfold MemoryStore.get
  split
  · exact h
  · split
    · exact h.filter _
    · exact h

theorem Backed.get_holds (h : s.Backed holds) {now : Clock} {key text : String}
    (found : (s.get now key).1 = some text) : ∃ tag, holds tag key text := by
  unfold MemoryStore.get at found
  split at found
  · exact absurd found (by simp)
  · rename_i e known
    split at found
    · exact absurd found (by simp)
    · obtain rfl := Option.some.inj found
      obtain ⟨tag, -, held⟩ := h key e (mem_of_lookup known)
      exact ⟨tag, held⟩

/-- A purge keeps the registrations of the entries that it keeps. -/
theorem registered_purged {now : Clock} {tag key : String} {e : StoreEntry}
    (listed : key ∈ s.registered tag) (kept : (key, e) ∈ (s.purged now).entries) :
    key ∈ (s.purged now).registered tag := by
  unfold registered at listed ⊢
  cases found : s.tags.lookup tag with
  | none => exact absurd listed (by simp [found])
  | some keys =>
    rw [found, Option.getD_some] at listed
    have live : ((s.purged now).entries.lookup key).isSome := by
      cases missing : (s.purged now).entries.lookup key with
      | some => rfl
      | none => exact absurd (List.lookup_eq_none_iff.mp missing _ kept) (by simp)
    have stays : key ∈ keys.filter fun k => ((s.purged now).entries.lookup k).isSome :=
      List.mem_filter.mpr ⟨listed, live⟩
    have nonempty : (keys.filter fun k => ((s.purged now).entries.lookup k).isSome).isEmpty =
        false := by
      rw [List.isEmpty_eq_false_iff]
      exact List.ne_nil_of_mem stays
    have looked : (s.purged now).tags.lookup tag =
        some (keys.filter fun k => ((s.purged now).entries.lookup k).isSome) := by
      unfold purged
      refine lookup_filter ?_ (by simpa [purged] using nonempty)
      exact (lookup_map_value _ s.tags tag).trans (by rw [found]; rfl)
    rw [looked]
    exact stays

theorem Backed.purged (h : s.Backed holds) (now : Clock) : (s.purged now).Backed holds := by
  intro key e kept
  obtain ⟨tag, listed, held⟩ := h key e ((List.mem_filter.mp kept).1)
  exact ⟨tag, registered_purged listed kept, held⟩

theorem mem_registered_tag {key tag k t : String} :
    k ∈ (s.tag key tag).registered t ↔ k ∈ s.registered t ∨ (t = tag ∧ k = key) := by
  simp only [registered, MemoryStore.tag, lookup_upsert]
  by_cases same : t = tag
  · simp [same]
  · simp [same]

theorem mem_registered_tagAll (key k t : String) (tags : List String) :
    k ∈ (tags.foldl (fun s t => s.tag key t) s).registered t ↔
      k ∈ s.registered t ∨ (t ∈ tags ∧ k = key) := by
  induction tags generalizing s with
  | nil => simp
  | cons tag rest ih =>
    rw [List.foldl_cons, ih, mem_registered_tag, List.mem_cons, or_assoc, or_and_right]

theorem entries_tagAll (key : String) (tags : List String) :
    (tags.foldl (fun s t => s.tag key t) s).entries = s.entries := by
  induction tags generalizing s with
  | nil => rfl
  | cons tag rest ih => exact ih

/-- A text that is written is registered under all of its tags, so one for which it holds will do. -/
theorem Backed.put (h : s.Backed holds) (now : Clock) {key text : String} (ttl : Option Duration)
    {tag : String} {tags : List String} (listed : tag ∈ tags) (held : holds tag key text) :
    (s.put now key text ttl tags).Backed holds := by
  intro k e kept
  rw [MemoryStore.put, entries_tagAll] at kept
  obtain written | earlier := mem_upsert kept
  · obtain ⟨rfl, rfl⟩ := Prod.mk.inj written
    exact ⟨tag, (mem_registered_tagAll _ _ _ _).mpr (.inr ⟨listed, rfl⟩), held⟩
  · obtain ⟨other, known, holding⟩ := h.purged now k e earlier
    exact ⟨other, (mem_registered_tagAll _ _ _ _).mpr (.inl known), holding⟩

theorem registered_flushTag_eq (s : MemoryStore) (tag other : String) :
    (s.flushTag tag).1.registered other = if other = tag then [] else s.registered other := by
  have kept : (s.flushTag tag).1.tags.lookup other =
      if other != tag then s.tags.lookup other else none :=
    lookup_filter_key (fun x => x != tag) s.tags other
  unfold registered
  rw [kept]
  by_cases same : other = tag
  · simp [same]
  · simp [same]

theorem registered_flushTag {flushed tag key : String} (listed : key ∈ s.registered tag)
    (other : tag ≠ flushed) : key ∈ (s.flushTag flushed).1.registered tag := by
  rw [registered_flushTag_eq, if_neg other]
  exact listed

/-- An entry that a flush leaves was not registered under the tag. -/
theorem not_registered_of_flushTag {flushed key : String} {e : StoreEntry}
    (kept : (key, e) ∈ (s.flushTag flushed).1.entries) : key ∉ s.registered flushed := by
  have unflushed := (List.mem_filter.mp kept).2
  intro listed
  exact absurd listed (by simpa [registered] using unflushed)

/-- What is left after a flush is registered under other tags. -/
theorem Backed.flushTag (h : s.Backed holds) (flushed : String) :
    (s.flushTag flushed).1.Backed fun tag key text => tag ≠ flushed ∧ holds tag key text := by
  intro key e kept
  obtain ⟨tag, listed, held⟩ := h key e (List.mem_filter.mp kept).1
  have other : tag ≠ flushed := by
    rintro rfl
    exact not_registered_of_flushTag kept listed
  exact ⟨tag, registered_flushTag listed other, other, held⟩

theorem Backed.flushTags (h : s.Backed holds) (now : Clock) (flushed : String) :
    (s.flushTags now [flushed]).1.Backed fun tag key text => tag ≠ flushed ∧ holds tag key text :=
  (h.flushTag flushed).purged now

theorem not_isExpired_iff {text : String} {now expires : Clock} :
    StoreEntry.isExpired ⟨text, some expires⟩ now = false ↔ now ≤ expires :=
  decide_eq_false_iff_not.trans Nat.not_lt

/-- What is put has not expired yet. -/
theorem not_isExpired_put (now : Clock) (text : String) (ttl : Option Duration) :
    StoreEntry.isExpired ⟨text, ttl.map fun d => now + d.totalNanos⟩ now = false := by
  cases ttl with
  | none => rfl
  | some d => exact not_isExpired_iff.mpr (Nat.le_add_right now d.totalNanos)

/-- What was written is read again at once. -/
theorem get_put (s : MemoryStore) (now : Clock) (key text : String) (ttl : Option Duration)
    (tags : List String) : ((s.put now key text ttl tags).get now key).1 = some text := by
  obtain ⟨e, written, texts, current⟩ : ∃ e, (s.put now key text ttl tags).entries.lookup key =
      some e ∧ e.text = text ∧ e.isExpired now = false := by
    rw [MemoryStore.put, entries_tagAll, lookup_upsert, if_pos rfl]
    exact ⟨_, rfl, rfl, not_isExpired_put now text ttl⟩
  rw [MemoryStore.get, written]
  simp only [current, texts, Bool.false_eq_true, if_false]

/-- An entry that is not registered under a flushed tag is still read. -/
theorem get_flushTags {s : MemoryStore} {now : Clock} {key text flushed : String}
    (found : (s.get now key).1 = some text) (apart : key ∉ s.registered flushed) :
    ((s.flushTags now [flushed]).1.get now key).1 = some text := by
  unfold MemoryStore.get at found
  split at found
  · exact absurd found (by simp)
  · rename_i e known
    split at found
    · exact absurd found (by simp)
    · rename_i current
      have unflushed : (s.flushTag flushed).1.entries.lookup key = some e :=
        lookup_filter known (by simpa [registered] using apart)
      have left : (s.flushTags now [flushed]).1.entries.lookup key = some e :=
        lookup_filter unflushed (by simpa using current)
      simp only [MemoryStore.get, left, if_neg current]
      exact found

end EagerLoad.MemoryStore
