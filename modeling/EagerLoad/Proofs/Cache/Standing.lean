import EagerLoad.Proofs.Cache.Store

/-! # What a memory store shows under a key

The two maps of a memory store are cleaned at different times, so they may say more of keys that nothing
stands under any more. What a store shows under a key is its entry, unless that has expired, with the tags
that the key is registered under. Every operation is described by what it makes of that. -/
namespace EagerLoad.MemoryStore

/-- An entry with the tags that its key is registered under. -/
structure Standing where
  entry : StoreEntry
  tags : List String

/-- What may be there, unless its entry has expired. -/
def current (entry : α → StoreEntry) (now : Clock) (x : Option α) : Option α :=
  x.filter fun a => !(entry a).isExpired now

/-- The entry of a key that has not expired. -/
def live (s : MemoryStore) (now : Clock) (key : String) : Option StoreEntry :=
  current id now (s.entries.lookup key)

/-- Whether a store has under a key what stands there, with all of its tags and no other. -/
def Shows (s : MemoryStore) (now : Clock) (key : String) : Option Standing → Prop
  | none => s.live now key = none
  | some x => s.live now key = some x.entry ∧ ∀ tag, key ∈ s.registered tag ↔ tag ∈ x.tags

/-- Whether no key and no tag is listed twice. -/
structure Distinct (s : MemoryStore) : Prop where
  entries : (s.entries.map (·.1)).Nodup
  tags : (s.tags.map (·.1)).Nodup

variable {s : MemoryStore} {now : Clock}

theorem isExpired_mono {e : StoreEntry} {t : Clock} (passed : now ≤ t)
    (expired : e.isExpired now = true) : e.isExpired t = true := by
  obtain ⟨text, _ | expires⟩ := e
  · exact expired
  · have late : expires < now := of_decide_eq_true expired
    exact decide_eq_true (Nat.lt_of_lt_of_le late passed)

section Current

variable {entry : α → StoreEntry}

theorem current_some {a : α} (unexpired : (entry a).isExpired now = false) :
    current entry now (some a) = some a := by
  simp [current, Option.filter_some, unexpired]

theorem current_eq_none {a : α} (expired : (entry a).isExpired now = true) :
    current entry now (some a) = none := by
  simp [current, Option.filter_some, expired]

theorem current_later {t : Clock} (passed : now ≤ t) (x : Option α) :
    current entry t (current entry now x) = current entry t x := by
  cases x with
  | none => rfl
  | some a =>
    cases expired : (entry a).isExpired now with
    | true => rw [current_eq_none expired, current_eq_none (isExpired_mono passed expired)]; rfl
    | false => rw [current_some expired]

theorem current_filter (x : Option α) (keep : α → Bool) :
    current entry now (x.filter keep) = (current entry now x).filter keep := by
  cases x with
  | none => rfl
  | some a =>
    cases expired : (entry a).isExpired now <;> cases kept : keep a <;>
      simp [current, Option.filter_some, expired, kept]

end Current

/-- As time passes, entries expire. -/
theorem Shows.later {key : String} {x : Option Standing} (shows : s.Shows now key x) {t : Clock}
    (passed : now ≤ t) : s.Shows t key (current (·.entry) t x) := by
  have left : s.live t key = current id t (s.live now key) := (current_later passed _).symm
  cases x with
  | none =>
    have nothing : s.live now key = none := shows
    rw [nothing] at left
    exact left
  | some x =>
    obtain ⟨entry, tags⟩ := shows
    rw [entry] at left
    cases expired : x.entry.isExpired t with
    | true =>
      rw [current_eq_none expired]
      exact left.trans (current_eq_none expired)
    | false =>
      rw [current_some expired]
      exact ⟨left.trans (current_some expired), tags⟩

/-- Of a key that has an entry the registrations count, of any other key nothing. -/
theorem Shows.of_same {key : String} {x : Option Standing} (shows : s.Shows now key x)
    {s' : MemoryStore} (entry : s'.live now key = s.live now key)
    (listed : ∀ tag, (s.live now key).isSome = true →
      (key ∈ s'.registered tag ↔ key ∈ s.registered tag)) : s'.Shows now key x := by
  cases x with
  | none => exact entry.trans shows
  | some x =>
    obtain ⟨there, tags⟩ := shows
    have present : (s.live now key).isSome = true := there ▸ rfl
    exact ⟨entry.trans there, fun tag => (listed tag present).trans (tags tag)⟩

/-! ## What each call leaves -/

theorem distinct_empty : Distinct {} := ⟨List.nodup_nil, List.nodup_nil⟩

namespace Distinct

theorem filter_entries (distinct : s.Distinct) (keep : String × StoreEntry → Bool) :
    Distinct { s with entries := s.entries.filter keep } :=
  ⟨(List.filter_sublist.map _).nodup distinct.entries, distinct.tags⟩

theorem purged (distinct : s.Distinct) (now : Clock) : (s.purged now).Distinct where
  entries := (List.filter_sublist.map _).nodup distinct.entries
  tags := by
    unfold MemoryStore.purged
    refine (List.filter_sublist.map _).nodup ?_
    rw [List.map_map]
    exact distinct.tags

theorem tag (distinct : s.Distinct) (key tag : String) : (s.tag key tag).Distinct where
  entries := distinct.entries
  tags := by
    rw [MemoryStore.tag, keys_upsert]
    exact nodup_addNew distinct.tags tag

theorem put (distinct : s.Distinct) (now : Clock) (key text : String) (ttl : Option Duration)
    (tags : List String) : (s.put now key text ttl tags).Distinct := by
  have written (e : StoreEntry) :
      Distinct { s.purged now with entries := upsert key e (s.purged now).entries } := by
    refine ⟨?_, (distinct.purged now).tags⟩
    rw [keys_upsert]
    exact nodup_addNew (distinct.purged now).entries key
  unfold MemoryStore.put
  refine List.foldlRecOn tags _ (written _) fun s kept t _ => kept.tag key t

theorem get (distinct : s.Distinct) (now : Clock) (key : String) : (s.get now key).2.Distinct := by
  unfold MemoryStore.get
  split
  · exact distinct
  · split
    · exact distinct.filter_entries _
    · exact distinct

theorem forget (distinct : s.Distinct) (key : String) : (s.forget key).1.Distinct where
  entries := (List.filter_sublist.map _).nodup distinct.entries
  tags := by
    rw [MemoryStore.forget, List.map_map]
    exact distinct.tags

theorem flushTag (distinct : s.Distinct) (tag : String) : (s.flushTag tag).1.Distinct where
  entries := (List.filter_sublist.map _).nodup distinct.entries
  tags := (List.filter_sublist.map _).nodup distinct.tags

end Distinct

section Purged

variable (distinct : s.Distinct)
include distinct

theorem lookup_purged (now : Clock) (key : String) :
    (s.purged now).entries.lookup key = s.live now key :=
  lookup_filter_of_nodup distinct.entries _ key

theorem live_purged (now : Clock) (key : String) : (s.purged now).live now key = s.live now key := by
  rw [live, lookup_purged distinct]
  exact current_later (Nat.le_refl now) _

/-- A purge leaves every key that has an entry registered, and no other. -/
theorem registered_purged_eq (now : Clock) (tag : String) :
    (s.purged now).registered tag =
      (s.registered tag).filter fun k => (s.live now k).isSome := by
  have tags : (s.purged now).tags =
      (s.tags.map fun t => (t.1, t.2.filter fun k => (s.live now k).isSome)).filter
        fun t => !t.2.isEmpty := by
    simp only [← lookup_purged distinct]
    rfl
  have unique : ((s.tags.map fun t =>
      (t.1, t.2.filter fun k => (s.live now k).isSome)).map (·.1)).Nodup := by
    rw [List.map_map]
    exact distinct.tags
  unfold registered
  rw [tags, lookup_filter_of_nodup unique, lookup_map_value]
  cases s.tags.lookup tag with
  | none => rfl
  | some keys =>
    rw [Option.map_some, Option.filter_some, Option.getD_some]
    split
    · rfl
    · rename_i empty
      simpa using empty

theorem mem_registered_purged (now : Clock) (key tag : String) :
    key ∈ (s.purged now).registered tag ↔
      key ∈ s.registered tag ∧ (s.live now key).isSome = true := by
  rw [registered_purged_eq distinct, List.mem_filter]

theorem Shows.purged {key : String} {x : Option Standing} (shows : s.Shows now key x) :
    (s.purged now).Shows now key x := by
  apply shows.of_same (live_purged distinct now key)
  intro tag there
  rw [mem_registered_purged distinct]
  exact and_iff_left there

theorem live_put (key text : String) (ttl : Option Duration) (tags : List String) (k : String) :
    (s.put now key text ttl tags).live now k =
      if k = key then some ⟨text, ttl.map fun d => now + d.totalNanos⟩ else s.live now k := by
  rw [live, put, entries_tagAll, lookup_upsert]
  by_cases same : k = key
  · rw [if_pos same, if_pos same]
    exact current_some (not_isExpired_put now text ttl)
  · rw [if_neg same, if_neg same]
    exact live_purged distinct now k

theorem mem_registered_put (key text : String) (ttl : Option Duration) (tags : List String)
    (k tag : String) :
    k ∈ (s.put now key text ttl tags).registered tag ↔
      k ∈ s.registered tag ∧ (s.live now k).isSome = true ∨ tag ∈ tags ∧ k = key := by
  rw [put, mem_registered_tagAll, ← mem_registered_purged distinct]
  rfl

/-- What is put is registered under its tags and those of what it overwrites. -/
theorem Shows.put_same {key : String} {x : Option Standing} (shows : s.Shows now key x)
    (text : String) (ttl : Option Duration) (tags : List String) :
    (s.put now key text ttl tags).Shows now key
      (some ⟨⟨text, ttl.map fun d => now + d.totalNanos⟩, tags ++ x.elim [] (·.tags)⟩) := by
  refine ⟨?_, fun tag => ?_⟩
  · rw [live_put distinct, if_pos rfl]
  · rw [mem_registered_put distinct, List.mem_append]
    cases x with
    | none =>
      have nothing : s.live now key = none := shows
      simp [nothing]
    | some x =>
      obtain ⟨entry, listed⟩ := shows
      simp [entry, listed, or_comm]

theorem Shows.put_other {key k : String} {x : Option Standing} (shows : s.Shows now k x)
    (other : k ≠ key) (text : String) (ttl : Option Duration) (tags : List String) :
    (s.put now key text ttl tags).Shows now k x := by
  apply shows.of_same
  · rw [live_put distinct, if_neg other]
  · intro tag there
    rw [mem_registered_put distinct]
    simp [other, there]

end Purged

theorem live_drop (now : Clock) (key k : String) :
    (s.drop key).live now k = if k = key then none else s.live now k := by
  have kept := lookup_filter_key (fun x => x != key) s.entries k
  unfold live drop
  rw [kept]
  by_cases same : k = key
  · simp [same, current]
  · simp [same]

/-- Reading removes nothing but what has expired. -/
theorem Shows.get {k : String} {x : Option Standing} (shows : s.Shows now k x) (key : String) :
    (s.get now key).2.Shows now k x := by
  unfold MemoryStore.get
  split
  · exact shows
  · rename_i e known
    split
    · rename_i expired
      have gone : s.live now key = none := by
        rw [live, known]
        exact current_eq_none expired
      apply shows.of_same
      · rw [live_drop]
        split
        · rename_i same
          rw [same, gone]
        · rfl
      · exact fun _ _ => Iff.rfl
    · exact shows

theorem Shows.forget_same (now : Clock) (key : String) : (s.forget key).1.Shows now key none :=
  (live_drop now key key).trans (if_pos rfl)

theorem Shows.forget_other {key k : String} {x : Option Standing} (shows : s.Shows now k x)
    (other : k ≠ key) : (s.forget key).1.Shows now k x := by
  apply shows.of_same
  · exact (live_drop now key k).trans (if_neg other)
  · intro tag _
    unfold forget registered
    rw [lookup_map_value]
    cases s.tags.lookup tag <;> simp [other]

theorem live_flushTag (s : MemoryStore) (now : Clock) (tag k : String) :
    (s.flushTag tag).1.live now k = if k ∈ s.registered tag then none else s.live now k := by
  have kept : (s.flushTag tag).1.entries.lookup k =
      if !(s.registered tag).contains k then s.entries.lookup k else none :=
    lookup_filter_key (fun x => !(s.registered tag).contains x) s.entries k
  unfold live
  rw [kept]
  by_cases listed : k ∈ s.registered tag
  · simp [listed, current]
  · simp [listed]

/-- Flushing a tag removes what is registered under it. -/
theorem Shows.flushTag {k : String} {x : Option Standing} (shows : s.Shows now k x) (tag : String) :
    (s.flushTag tag).1.Shows now k (x.filter fun x => !x.tags.contains tag) := by
  cases x with
  | none =>
    have nothing : s.live now k = none := shows
    change (s.flushTag tag).1.live now k = none
    rw [live_flushTag, nothing, ite_self]
  | some x =>
    obtain ⟨there, listed⟩ := shows
    by_cases flushed : tag ∈ x.tags
    · rw [Option.filter_some, if_neg (by simp [flushed])]
      exact (live_flushTag s now tag k).trans (if_pos ((listed tag).mpr flushed))
    · rw [Option.filter_some, if_pos (by simp [flushed])]
      have apart : k ∉ s.registered tag := fun found => flushed ((listed tag).mp found)
      refine ⟨(live_flushTag s now tag k).trans ((if_neg apart).trans there), fun other => ?_⟩
      rw [registered_flushTag_eq]
      split
      · rename_i same
        subst same
        exact iff_of_false List.not_mem_nil flushed
      · exact listed other

/-- The store after the tags of a list were flushed, before it is purged. -/
theorem flushTags_fst (s : MemoryStore) (now : Clock) (tags : List String) :
    (s.flushTags now tags).1 = (tags.foldl (fun s t => (s.flushTag t).1) s).purged now := by
  have uncounted (found : MemoryStore × Nat) :
      (tags.foldl (fun found t => ((found.1.flushTag t).1, found.2 + (found.1.flushTag t).2))
        found).1 = tags.foldl (fun s t => (s.flushTag t).1) found.1 := by
    induction tags generalizing found with
    | nil => rfl
    | cons tag rest ih => exact ih _
  exact congrArg (fun s => MemoryStore.purged s now) (uncounted (s, 0))

theorem flushAll_shows (distinct : s.Distinct) {k : String} {x : Option Standing}
    (shows : s.Shows now k x) (tags : List String) :
    (tags.foldl (fun s t => (s.flushTag t).1) s).Distinct ∧
      (tags.foldl (fun s t => (s.flushTag t).1) s).Shows now k
        (x.filter fun x => !tags.any x.tags.contains) := by
  induction tags generalizing s x with
  | nil =>
    refine ⟨distinct, ?_⟩
    cases x <;> exact shows
  | cons tag rest ih =>
    obtain ⟨kept, flushed⟩ := ih (distinct.flushTag tag) (shows.flushTag tag)
    refine ⟨kept, ?_⟩
    rw [List.foldl_cons]
    convert flushed using 1
    cases x with
    | none => rfl
    | some x => by_cases here : tag ∈ x.tags <;> simp [Option.filter_some, here]

theorem Distinct.flushTags (distinct : s.Distinct) (now : Clock) (tags : List String) :
    (s.flushTags now tags).1.Distinct := by
  rw [flushTags_fst]
  refine Distinct.purged (List.foldlRecOn tags _ distinct fun s kept tag _ => ?_) now
  exact kept.flushTag tag

theorem Shows.flushTags (distinct : s.Distinct) {k : String} {x : Option Standing}
    (shows : s.Shows now k x) (tags : List String) :
    (s.flushTags now tags).1.Shows now k (x.filter fun x => !tags.any x.tags.contains) := by
  rw [flushTags_fst]
  obtain ⟨kept, flushed⟩ := flushAll_shows distinct shows tags
  exact flushed.purged kept

end EagerLoad.MemoryStore
