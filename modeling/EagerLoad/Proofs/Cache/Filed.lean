import EagerLoad.Cache.Unreliable
import EagerLoad.Proofs.Cache.Store

/-! # Stores that keep to their tags

What is relied on of a store is little. It gives back no text but one that it was given, it registers an
entry under every tag, and a flush that it does not refuse leaves no entry that was registered under the tag.
It may lose entries at any time and refuse any operation. -/
namespace EagerLoad

/-- What the states of a store have: texts that may be read by key, and tags that keys are registered
under. -/
structure Filing (σ : Type) where
  sound : σ → Prop
  readable : σ → String → String → Prop
  tagged : σ → String → String → Prop

/-- Whether a state has nothing but what the earlier one has, with all its tags. -/
structure Filing.Dwindles (f : Filing σ) (s s' : σ) : Prop where
  sound : f.sound s'
  readable : ∀ key text, f.readable s' key text → f.readable s key text
  tagged : ∀ tag key text, f.readable s' key text → f.tagged s tag key → f.tagged s' tag key

theorem Filing.Dwindles.refl {f : Filing σ} {s : σ} (sound : f.sound s) : f.Dwindles s s :=
  ⟨sound, fun _ _ kept => kept, fun _ _ _ _ listed => listed⟩

theorem Filing.Dwindles.trans {f : Filing σ} {s s' s'' : σ} (first : f.Dwindles s s')
    (second : f.Dwindles s' s'') : f.Dwindles s s'' where
  sound := second.sound
  readable key text kept := first.readable key text (second.readable key text kept)
  tagged tag key text kept listed :=
    second.tagged tag key text kept (first.tagged tag key text (second.readable key text kept) listed)

/-- Whether a state has nothing but what the earlier one has and a text that was written with tags. -/
structure Filing.Gains (f : Filing σ) (key text : String) (tags : List String) (s s' : σ) : Prop where
  sound : f.sound s'
  readable : ∀ k x, f.readable s' k x →
    (k = key ∧ x = text ∧ ∀ tag ∈ tags, f.tagged s' tag k) ∨
      (f.readable s k x ∧ ∀ tag, f.tagged s tag k → f.tagged s' tag k)

theorem Filing.Dwindles.gains {f : Filing σ} {s s' : σ} (h : f.Dwindles s s') (key text : String)
    (tags : List String) : f.Gains key text tags s s' where
  sound := h.sound
  readable k x kept := .inr ⟨h.readable k x kept, fun tag => h.tagged tag k x kept⟩

/-- Whether the operations of a store, refused ones included, keep to what its states have. -/
structure StoreOps.Files (ops : StoreOps σ) (f : Filing σ) : Prop where
  get : ∀ now key s, f.sound s → f.Dwindles s (ops.get now key s).2
  found : ∀ now key s text, f.sound s → (ops.get now key s).1 = .ok (some text) → f.readable s key text
  put : ∀ now key text ttl tags s, f.sound s →
    f.Gains key text tags s (ops.put now key text ttl tags s).2
  flush : ∀ now tag s, f.sound s → f.Dwindles s (ops.flushTags now [tag] s).2
  flushed : ∀ now tag s n key text, f.sound s → (ops.flushTags now [tag] s).1 = .ok n →
    f.readable (ops.flushTags now [tag] s).2 key text → ¬ f.tagged s tag key

namespace MemoryStore

def filing : Filing MemoryStore where
  sound _ := True
  readable s key text := ∃ e, (key, e) ∈ s.entries ∧ e.text = text
  tagged s tag key := key ∈ s.registered tag

theorem purged_dwindles (s : MemoryStore) (now : Clock) : filing.Dwindles s (s.purged now) where
  sound := trivial
  readable := by
    rintro key text ⟨e, kept, same⟩
    exact ⟨e, (List.mem_filter.mp kept).1, same⟩
  tagged := by
    rintro tag key text ⟨e, kept, -⟩ listed
    exact registered_purged listed kept

theorem get_dwindles (s : MemoryStore) (now : Clock) (key : String) :
    filing.Dwindles s (s.get now key).2 := by
  unfold MemoryStore.get
  split
  · exact .refl trivial
  · split
    · refine ⟨trivial, ?_, fun _ _ _ _ listed => listed⟩
      rintro k text ⟨e, kept, same⟩
      exact ⟨e, (List.mem_filter.mp kept).1, same⟩
    · exact .refl trivial

theorem readable_of_get {s : MemoryStore} {now : Clock} {key text : String}
    (found : (s.get now key).1 = some text) : filing.readable s key text := by
  unfold MemoryStore.get at found
  split at found
  · exact absurd found (by simp)
  · rename_i e known
    split at found
    · exact absurd found (by simp)
    · exact ⟨e, mem_of_lookup known, Option.some.inj found⟩

theorem put_gains (s : MemoryStore) (now : Clock) (key text : String) (ttl : Option Duration)
    (tags : List String) : filing.Gains key text tags s (s.put now key text ttl tags) where
  sound := trivial
  readable := by
    rintro k x ⟨e, kept, same⟩
    rw [MemoryStore.put, entries_tagAll] at kept
    rcases mem_upsert kept with written | earlier
    · obtain ⟨rfl, rfl⟩ := Prod.mk.inj written
      exact .inl ⟨rfl, same.symm, fun tag listed =>
        (mem_registered_tagAll _ _ _ _).mpr (.inr ⟨listed, rfl⟩)⟩
    · have purged := s.purged_dwindles now
      have before : filing.readable (s.purged now) k x := ⟨e, earlier, same⟩
      refine .inr ⟨purged.readable k x before, fun tag listed => ?_⟩
      exact (mem_registered_tagAll _ _ _ _).mpr (.inl (purged.tagged tag k x before listed))

theorem flushTag_dwindles (s : MemoryStore) (tag : String) : filing.Dwindles s (s.flushTag tag).1 where
  sound := trivial
  readable := by
    rintro key text ⟨e, kept, same⟩
    exact ⟨e, (List.mem_filter.mp kept).1, same⟩
  tagged := by
    rintro other key text ⟨e, kept, -⟩ listed
    apply registered_flushTag listed
    rintro rfl
    exact not_registered_of_flushTag kept listed

theorem ops_files : MemoryStore.ops.Files filing where
  get now key s _ := s.get_dwindles now key
  found now key s text _ found := readable_of_get (Except.ok.inj found)
  put now key text ttl tags s _ := s.put_gains now key text ttl tags
  flush now tag s _ := (s.flushTag_dwindles tag).trans (purged_dwindles _ now)
  flushed now tag s n key text _ _ := by
    intro kept
    obtain ⟨e, left, -⟩ := (purged_dwindles _ now).readable key text kept
    exact not_registered_of_flushTag left

end MemoryStore

namespace UnreliableStore

/-- A store that may refuse has what its memory has, as long as it does not garble it. -/
def filing : Filing UnreliableStore where
  sound s := s.garbled = none
  readable s := MemoryStore.filing.readable s.memory
  tagged s := MemoryStore.filing.tagged s.memory

theorem dwindles_of_memory {s : UnreliableStore} {memory : MemoryStore} (sound : filing.sound s)
    (h : MemoryStore.filing.Dwindles s.memory memory) : filing.Dwindles s { s with memory } :=
  ⟨sound, h.readable, h.tagged⟩

theorem ops_files : UnreliableStore.ops.Files filing where
  get now key s sound := by
    simp only [ops, attempt]
    split
    · exact .refl sound
    · exact dwindles_of_memory sound (MemoryStore.ops_files.get now key s.memory trivial)
  found now key s text sound := by
    have plain : s.garbled = none := sound
    simp only [ops, attempt, plain, MemoryStore.ops]
    split
    · intro none
      exact nomatch none
    · intro found
      have read : (s.memory.get now key).1 = some text := by simpa [Except.map] using found
      exact MemoryStore.readable_of_get read
  put now key text ttl tags s sound := by
    simp only [ops, attempt]
    split
    · exact (Filing.Dwindles.refl sound).gains key text tags
    · have gains := MemoryStore.ops_files.put now key text ttl tags s.memory trivial
      exact ⟨sound, gains.readable⟩
  flush now tag s sound := by
    simp only [ops, attempt]
    split
    · exact .refl sound
    · exact dwindles_of_memory sound (MemoryStore.ops_files.flush now tag s.memory trivial)
  flushed now tag s n key text sound := by
    simp only [ops, attempt]
    split
    · intro refused
      exact nomatch refused
    · exact MemoryStore.ops_files.flushed now tag s.memory n key text trivial

end UnreliableStore
end EagerLoad
