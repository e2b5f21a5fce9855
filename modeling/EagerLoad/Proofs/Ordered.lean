import Mathlib.Data.List.Forall2
import Mathlib.Data.List.Induction
import EagerLoad.Ordered

/-! # What ordered collections hold

A key that is set holds its last value, and an item that is added again stays where it is. -/
namespace EagerLoad

/-- Two lists have the same images exactly if they pair up by them. -/
theorem map_eq_map_iff_forall₂ {f : α → γ} {g : β → γ} {xs : List α} {ys : List β} :
    xs.map f = ys.map g ↔ List.Forall₂ (fun x y => f x = g y) xs ys := by
  rw [← List.forall₂_eq_eq_eq, List.forall₂_map_left_iff, List.forall₂_map_right_iff]

theorem lookup_entry (x k : String) (v : α) (rest : List (String × α)) :
    ((k, v) :: rest).lookup x = if x = k then some v else rest.lookup x := by
  by_cases h : x = k
  · simp [h]
  · have other : (x == k) = false := by simpa using h
    simp [List.lookup_cons, other, h]

theorem lookup_upsert (key x : String) (value : α) (entries : List (String × α)) :
    (upsert key value entries).lookup x = if x = key then some value else entries.lookup x := by
  induction entries with
  | nil => rw [upsert, lookup_entry]
  | cons entry rest ih =>
    obtain ⟨k, v⟩ := entry
    rw [upsert]
    by_cases same : k = key
    · subst same
      rw [if_pos rfl, lookup_entry, lookup_entry]
      split <;> rfl
    · rw [if_neg same, lookup_entry, lookup_entry, ih]
      by_cases h : x = k
      · subst h
        simp [same]
      · simp [h]

theorem mem_of_lookup {entries : List (String × α)} {key : String} {value : α}
    (found : entries.lookup key = some value) : (key, value) ∈ entries := by
  obtain ⟨front, back, rfl, -⟩ := List.lookup_eq_some_iff.mp found
  simp

theorem mem_upsert {key : String} {value : α} {entries : List (String × α)} {e : String × α}
    (h : e ∈ upsert key value entries) : e = (key, value) ∨ e ∈ entries := by
  induction entries with
  | nil => exact .inl (List.mem_singleton.mp h)
  | cons entry rest ih =>
    obtain ⟨k, v⟩ := entry
    rw [upsert] at h
    split at h
    · exact (List.mem_cons.mp h).imp_right (List.mem_cons_of_mem _)
    · obtain rfl | later := List.mem_cons.mp h
      · exact .inr List.mem_cons_self
      · exact (ih later).imp_right (List.mem_cons_of_mem _)

theorem upsert_ne_nil (key : String) (value : α) (entries : List (String × α)) : upsert key value entries ≠ [] := by
  cases entries with
  | nil => exact List.cons_ne_nil _ _
  | cons first rest =>
    rw [upsert]
    split
    · exact List.cons_ne_nil _ _
    · exact List.cons_ne_nil _ _

/-- The entry found for a key is still found if the filter lets it through. -/
theorem lookup_filter {entries : List (String × α)} {keep : String × α → Bool} {key : String}
    {value : α} (found : entries.lookup key = some value) (kept : keep (key, value) = true) :
    (entries.filter keep).lookup key = some value := by
  induction entries with
  | nil => exact absurd found (by simp)
  | cons entry rest ih =>
    obtain ⟨k, v⟩ := entry
    rw [lookup_entry] at found
    by_cases same : key = k
    · obtain rfl : v = value := by simpa [same] using found
      subst same
      rw [List.filter_cons_of_pos kept, lookup_entry, if_pos rfl]
    · rw [if_neg same] at found
      rw [List.filter_cons]
      split
      · rw [lookup_entry, if_neg same, ih found]
      · exact ih found

/-- A filter that looks at keys only keeps all entries of a key or none. -/
theorem lookup_filter_key (keep : String → Bool) (entries : List (String × α)) (key : String) :
    (entries.filter fun e => keep e.1).lookup key = if keep key then entries.lookup key else none := by
  induction entries with
  | nil => simp
  | cons entry rest ih =>
    obtain ⟨k, v⟩ := entry
    rw [List.filter_cons, lookup_entry]
    by_cases same : key = k
    · subst same
      split
      · rw [lookup_entry, if_pos rfl, if_pos rfl]
      · rename_i gone
        exact ih.trans (if_neg gone)
    · rw [if_neg same]
      split
      · rw [lookup_entry, if_neg same, ih]
      · exact ih

theorem lookup_map_value (change : α → β) (entries : List (String × α)) (key : String) :
    (entries.map fun e => (e.1, change e.2)).lookup key = (entries.lookup key).map change := by
  induction entries with
  | nil => rfl
  | cons entry rest ih =>
    obtain ⟨k, v⟩ := entry
    rw [List.map_cons, lookup_entry, lookup_entry, ih]
    split <;> rfl

/-- Where no key repeats, every key holds the value that it is listed with. -/
theorem lookup_of_mem {entries : List (String × α)} (distinct : (entries.map (·.1)).Nodup)
    {key : String} {value : α} (listed : (key, value) ∈ entries) :
    entries.lookup key = some value := by
  induction entries with
  | nil => exact absurd listed (by simp)
  | cons entry rest ih =>
    obtain ⟨k, v⟩ := entry
    rw [List.map_cons, List.nodup_cons] at distinct
    rw [lookup_entry]
    obtain same | later := List.mem_cons.mp listed
    · obtain ⟨rfl, rfl⟩ := Prod.mk.inj same
      exact if_pos rfl
    · have other : key ≠ k := by
        rintro rfl
        exact distinct.1 (List.mem_map.mpr ⟨_, later, rfl⟩)
      rw [if_neg other]
      exact ih distinct.2 later

/-- Where no key repeats, a filter keeps the entry of a key or leaves the key without one. -/
theorem lookup_filter_of_nodup {entries : List (String × α)} (distinct : (entries.map (·.1)).Nodup)
    (keep : String × α → Bool) (key : String) :
    (entries.filter keep).lookup key = (entries.lookup key).filter fun v => keep (key, v) := by
  cases found : entries.lookup key with
  | none =>
    rw [Option.filter_none, List.lookup_eq_none_iff]
    intro e kept
    exact List.lookup_eq_none_iff.mp found e (List.mem_filter.mp kept).1
  | some value =>
    by_cases kept : keep (key, value) = true
    · rw [lookup_filter found kept, Option.filter_some, if_pos kept]
    · rw [Option.filter_some, if_neg kept, List.lookup_eq_none_iff]
      rintro ⟨k, v⟩ listed
      rw [bne_iff_ne]
      rintro rfl
      obtain ⟨known, held⟩ := List.mem_filter.mp listed
      obtain rfl := Option.some.inj ((lookup_of_mem distinct known).symm.trans found)
      exact kept held

theorem addNew_cons (first : String) (items : List String) (item : String) :
    addNew (first :: items) item =
      if first = item then first :: items else first :: addNew items item := by
  unfold addNew
  by_cases same : first = item
  · simp [same]
  · have other : ¬item = first := Ne.symm same
    by_cases known : item ∈ items <;> simp [same, other, known]

theorem keys_upsert (key : String) (value : α) (entries : List (String × α)) :
    (upsert key value entries).map (·.1) = addNew (entries.map (·.1)) key := by
  induction entries with
  | nil => rfl
  | cons entry rest ih =>
    obtain ⟨k, v⟩ := entry
    rw [upsert, List.map_cons, addNew_cons]
    by_cases same : k = key
    · rw [if_pos same, if_pos same, List.map_cons, same]
    · rw [if_neg same, if_neg same, List.map_cons, ih]

@[simp] theorem mem_addNew (items : List String) (item x : String) :
    x ∈ addNew items item ↔ x ∈ items ∨ x = item := by
  rw [addNew]
  by_cases known : item ∈ items
  · rw [if_pos (by simpa using known)]
    constructor
    · exact .inl
    · rintro (h | rfl)
      · exact h
      · exact known
  · rw [if_neg (by simpa using known)]
    simp

theorem mem_foldl_addNew (seen items : List String) (x : String) :
    x ∈ items.foldl addNew seen ↔ x ∈ seen ∨ x ∈ items := by
  induction items generalizing seen with
  | nil => simp
  | cons item rest ih => rw [List.foldl_cons, ih, mem_addNew, List.mem_cons, or_assoc]

@[simp] theorem mem_distinct (items : List String) (x : String) : x ∈ distinct items ↔ x ∈ items := by
  simp [distinct, mem_foldl_addNew]

theorem nodup_addNew {items : List String} (distinct : items.Nodup) (item : String) :
    (addNew items item).Nodup := by
  rw [addNew]
  split
  · exact distinct
  case isFalse unknown =>
    apply List.nodup_append.mpr
    refine ⟨distinct, List.pairwise_singleton _ item, ?_⟩
    rintro x known _ added rfl
    exact unknown (List.contains_iff_mem.mpr (List.mem_singleton.mp added ▸ known))

theorem nodup_foldl_addNew {seen : List String} (distinct : seen.Nodup) (items : List String) :
    (items.foldl addNew seen).Nodup := by
  induction items generalizing seen with
  | nil => exact distinct
  | cons item rest ih => exact ih (nodup_addNew distinct item)

theorem nodup_distinct (items : List String) : (distinct items).Nodup :=
  nodup_foldl_addNew List.nodup_nil items

private theorem foldl_addNew_eq (seen items : List String) :
    items.foldl addNew seen = seen ++ (items.filter fun x => !seen.contains x).eraseDups := by
  induction items generalizing seen with
  | nil => simp
  | cons item rest ih =>
    rw [List.foldl_cons, ih, addNew]
    by_cases known : item ∈ seen
    · rw [if_pos (by simpa using known), List.filter_cons_of_neg (by simpa using known)]
    · have later : (rest.filter fun x => !(seen ++ [item]).contains x) =
          (rest.filter fun x => !seen.contains x).filter fun x => !x == item := by
        rw [List.filter_filter]
        apply List.filter_congr
        intro x _
        simp [Bool.and_comm, Bool.beq_eq_decide_eq]
      rw [if_neg (by simpa using known), List.filter_cons_of_pos (by simpa using known),
        List.eraseDups_cons, later]
      simp

theorem distinct_eq_eraseDups (items : List String) : distinct items = items.eraseDups := by
  rw [distinct, foldl_addNew_eq]
  simp

theorem distinct_of_nodup {items : List String} (once : items.Nodup) : distinct items = items := by
  rw [distinct_eq_eraseDups]
  induction items with
  | nil => rfl
  | cons item rest ih =>
    obtain ⟨fresh, once⟩ := List.nodup_cons.mp once
    have others : (rest.filter fun x => !x == item) = rest := by
      apply List.filter_eq_self.mpr
      rintro x known
      have other : x ≠ item := fun same => fresh (same ▸ known)
      simpa using other
    rw [List.eraseDups_cons, others, ih once]

private theorem filter_foldl_addNew (keep : String → Bool) (seen items : List String) :
    (items.foldl addNew seen).filter keep = (items.filter keep).foldl addNew (seen.filter keep) := by
  induction items generalizing seen with
  | nil => rfl
  | cons item rest ih =>
    rw [List.foldl_cons, ih, addNew]
    by_cases kept : keep item = true
    · rw [List.filter_cons_of_pos kept, List.foldl_cons, addNew]
      by_cases known : item ∈ seen <;> simp [known, kept]
    · rw [List.filter_cons_of_neg kept]
      by_cases known : item ∈ seen <;> simp [known, kept]

/-- It makes no difference whether repeated items are left out before a filter or after it. -/
theorem filter_distinct (keep : String → Bool) (items : List String) :
    (distinct items).filter keep = distinct (items.filter keep) :=
  filter_foldl_addNew keep [] items

/-! ## Items put one after another

What is left of items that replace each other is the last one of every key. -/

/-- The items of a list, each put in the place of the earlier one with its key. -/
def listedBy (key : α → String) (items : List α) : List α :=
  items.foldl (fun listed item => putBy key item listed) []

section Listed

variable {key : α → String}

theorem keys_putBy (item : α) (items : List α) :
    (putBy key item items).map key = addNew (items.map key) (key item) := by
  induction items with
  | nil => rfl
  | cons x rest ih =>
    rw [putBy, List.map_cons, addNew_cons]
    by_cases same : key x = key item
    · rw [if_pos same, if_pos same, List.map_cons, same]
    · rw [if_neg same, if_neg same, List.map_cons, ih]

theorem mem_putBy {item x : α} {items : List α} (found : x ∈ putBy key item items) : x = item ∨ x ∈ items := by
  induction items with
  | nil => exact .inl (List.mem_singleton.mp found)
  | cons first rest ih =>
    rw [putBy] at found
    split at found
    · exact (List.mem_cons.mp found).imp_right (List.mem_cons_of_mem _)
    · obtain rfl | later := List.mem_cons.mp found
      · exact .inr List.mem_cons_self
      · exact (ih later).imp_right (List.mem_cons_of_mem _)

theorem keys_listedBy (items : List α) : (listedBy key items).map key = distinct (items.map key) := by
  rw [listedBy, distinct, List.foldl_map]
  change _ = List.foldl _ (List.map key []) items
  symm
  apply List.foldl_hom
  intro listed item
  exact (keys_putBy item listed).symm

theorem nodup_listedBy (items : List α) : ((listedBy key items).map key).Nodup :=
  keys_listedBy items ▸ nodup_distinct _

theorem mem_keys_listedBy {items : List α} {k : String} :
    k ∈ (listedBy key items).map key ↔ k ∈ items.map key := by
  rw [keys_listedBy, mem_distinct]

theorem mem_putBy_iff {items : List α} (distinct : (items.map key).Nodup) {item x : α} :
    x ∈ putBy key item items ↔ x = item ∨ x ∈ items ∧ key x ≠ key item := by
  induction items with
  | nil => simp [putBy]
  | cons first rest ih =>
    rw [List.map_cons, List.nodup_cons] at distinct
    obtain ⟨fresh, distinct⟩ := distinct
    by_cases same : key first = key item
    · have others : ∀ x ∈ rest, key x ≠ key item := by
        intro x known other
        exact fresh (List.mem_map.mpr ⟨x, known, other.trans same.symm⟩)
      rw [putBy, if_pos same, List.mem_cons, List.mem_cons]
      constructor
      · rintro (rfl | known)
        · exact .inl rfl
        · exact .inr ⟨.inr known, others x known⟩
      · rintro (rfl | ⟨rfl | known, other⟩)
        · exact .inl rfl
        · exact absurd same other
        · exact .inr known
    · rw [putBy, if_neg same, List.mem_cons, List.mem_cons, ih distinct]
      constructor
      · rintro (rfl | rfl | ⟨known, other⟩)
        · exact .inr ⟨.inl rfl, same⟩
        · exact .inl rfl
        · exact .inr ⟨.inr known, other⟩
      · rintro (rfl | ⟨rfl | known, other⟩)
        · exact .inr (.inl rfl)
        · exact .inl rfl
        · exact .inr (.inr ⟨known, other⟩)

/-- An item is listed if no later one has its key. -/
theorem mem_listedBy_iff {items : List α} {x : α} :
    x ∈ listedBy key items ↔ items.findRev? (fun item => key item == key x) = some x := by
  rw [List.findRev?_eq_find?_reverse]
  induction items using List.reverseRecOn with
  | nil => simp [listedBy]
  | append_singleton items item ih =>
    have put : listedBy key (items ++ [item]) = putBy key item (listedBy key items) := by
      simp [listedBy]
    rw [put, mem_putBy_iff (nodup_listedBy items), ih, List.reverse_append, List.reverse_singleton,
      List.singleton_append, List.find?_cons]
    by_cases same : key item = key x
    · simp [same, eq_comm]
    · have other : (key item == key x) = false := by simpa using same
      have different : x ≠ item := fun equal => same (equal ▸ rfl)
      simp [other, different, Ne.symm same]

end Listed

end EagerLoad
