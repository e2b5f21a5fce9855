import EagerLoad.Proofs.Row.Merge

/-! # Merging into rows that repeat a key

A join may give several rows with one key. Merging a batch changes the first row of every key only: the
rows after it keep what they have, though the batch has a partner for them too. -/
namespace EagerLoad

theorem forall₂_iff_getElem? {R : α → β → Prop} {xs : List α} {ys : List β} :
    List.Forall₂ R xs ys ↔ xs.length = ys.length ∧
      ∀ (place : Nat) (x : α) (y : β), xs[place]? = some x → ys[place]? = some y → R x y := by
  rw [List.forall₂_iff_get]
  refine and_congr_right fun _ => ⟨fun all place x y left right => ?_, fun all place left right => ?_⟩
  · obtain ⟨bound, rfl⟩ := List.getElem?_eq_some_iff.mp left
    obtain ⟨other, rfl⟩ := List.getElem?_eq_some_iff.mp right
    exact all place bound other
  · exact all place _ _ (List.getElem?_eq_getElem left) (List.getElem?_eq_getElem right)

namespace Row

/-- Whether two rows have the same key; a row without a key has no partner. -/
def Partners (key : String) (row incoming : Row) : Prop :=
  ∃ text, row.key? key = some text ∧ incoming.key? key = some text

/-- What is asked of a row that a batch is merged into: it holds what its partner has of the listed
columns, everything else is as before, and without a partner it is the same row. -/
structure Takes (key : String) (columns : List String) (batch : List Row) (row merged : Row) : Prop where
  taken : ∀ incoming ∈ batch, row.Partners key incoming → ∀ x ∈ columns, ∀ value,
    incoming.get? x = some value → merged.get? x = some value
  kept : ∀ x, (∀ incoming ∈ batch, row.Partners key incoming → x ∈ columns → incoming.get? x = none) →
    merged.get? x = row.get? x
  alone : (∀ incoming ∈ batch, ¬row.Partners key incoming) → merged = row

theorem takes_of_keyless {key : String} {columns : List String} {batch : List Row} {row : Row}
    (keyless : row.key? key = none) : Takes key columns batch row row where
  taken incoming _ := fun ⟨text, keyed, _⟩ => absurd keyed (by simp [keyless])
  kept _ _ := rfl
  alone _ := rfl

end Row

namespace Rows

variable {key : String} {columns : List String} {change next : Row → Row}

/-- Changes the first row of every key that was not seen. -/
def onFirst (key : String) (change : Row → Row) : List String → List Row → List Row
  | _, [] => []
  | seen, row :: rest =>
    match row.key? key with
    | none => row :: onFirst key change seen rest
    | some text =>
      if seen.contains text then row :: onFirst key change seen rest
      else change row :: onFirst key change (text :: seen) rest

theorem onFirst_unchanged {seen : List String} {rows : List Row}
    (same : ∀ row ∈ rows, ∀ text ∉ seen, row.key? key = some text → change row = row) :
    onFirst key change seen rows = rows := by
  induction rows generalizing seen with
  | nil => rfl
  | cons row rest ih =>
    have later (more : List String) (known : seen ⊆ more) : onFirst key change more rest = rest :=
      ih fun other found text fresh => same other (by simp [found]) text (fun h => fresh (known h))
    rw [onFirst]
    cases keyed : row.key? key with
    | none => simp only [later seen (List.Subset.refl _)]
    | some text =>
      dsimp only
      split
      · rw [later seen (List.Subset.refl _)]
      · rename_i fresh
        rw [same row (by simp) text (by simpa using fresh) keyed,
          later (text :: seen) (List.subset_cons_self _ _)]

/-- Changes that keep the key are made one after the other. -/
theorem onFirst_onFirst (keeps : ∀ row, (change row).key? key = row.key? key) (seen : List String)
    (rows : List Row) :
    onFirst key next seen (onFirst key change seen rows) =
      onFirst key (fun row => next (change row)) seen rows := by
  induction rows generalizing seen with
  | nil => rfl
  | cons row rest ih =>
    cases keyed : row.key? key with
    | none => simp only [onFirst, keyed, ih]
    | some text =>
      by_cases known : seen.contains text
      · simp only [onFirst, keyed, known, if_true, ih]
      · simp only [onFirst, keyed, keeps, known, ih, Bool.false_eq_true, if_false]

/-- What one incoming row does to a row. -/
def step (key : String) (columns : List String) (incoming row : Row) : Row :=
  if incoming.key? key = row.key? key then row.take columns incoming else row

theorem key?_step (keep : key ∉ columns) (incoming row : Row) :
    (step key columns incoming row).key? key = row.key? key := by
  unfold step
  split
  · exact Row.key?_take keep row incoming
  · rfl

theorem step_of_other (columns : List String) {incoming row : Row} {text other : String}
    (keyed : incoming.key? key = some text) (named : row.key? key = some other) (apart : other ≠ text) :
    step key columns incoming row = row := by
  refine if_neg fun same => apart ?_
  rw [keyed, named] at same
  exact (Option.some.inj same).symm

/-- After the row with its key an incoming row changes nothing. -/
theorem onFirst_step_seen {incoming : Row} {text : String} (keyed : incoming.key? key = some text)
    {seen : List String} (known : text ∈ seen) (rows : List Row) :
    onFirst key (step key columns incoming) seen rows = rows := by
  refine onFirst_unchanged fun row _ other fresh named => ?_
  refine step_of_other columns keyed named ?_
  rintro rfl
  exact fresh known

theorem mergeRow_eq_onFirst {incoming : Row} {text : String} (keyed : incoming.key? key = some text)
    {seen : List String} (fresh : text ∉ seen) (rows : List Row) :
    mergeRow key columns incoming text rows = onFirst key (step key columns incoming) seen rows := by
  induction rows generalizing seen with
  | nil => rfl
  | cons row rest ih =>
    rw [mergeRow, onFirst]
    cases named : row.key? key with
    | none => simp [ih fresh]
    | some other =>
      by_cases same : other = text
      · subst same
        have partner : step key columns incoming row = row.take columns incoming :=
          if_pos (keyed.trans named.symm)
        simp [fresh, partner, onFirst_step_seen keyed List.mem_cons_self]
      · have later : text ∉ other :: seen := by simp [fresh, Ne.symm same]
        have passed := step_of_other columns keyed named same
        simp [same, passed, ← ih fresh, ← ih later]

/-- Merging a batch lets the first row of every key receive it. -/
theorem merge_eq_onFirst (keep : key ∉ columns) (rows batch : List Row) :
    merge rows batch key columns = onFirst key (receive key columns batch) [] rows := by
  induction batch generalizing rows with
  | nil => exact (onFirst_unchanged fun _ _ _ _ _ => rfl).symm
  | cons incoming rest ih =>
    have stepped : merge rows (incoming :: rest) key columns =
        merge (onFirst key (step key columns incoming) [] rows) rest key columns := by
      rw [merge, List.foldl_cons, ← merge]
      congr 1
      cases keyed : incoming.key? key with
      | some text => exact mergeRow_eq_onFirst keyed List.not_mem_nil rows
      | none =>
        refine (onFirst_unchanged fun row _ text _ named => ?_).symm
        exact if_neg (by simp [keyed, named])
    rw [stepped, ih, onFirst_onFirst (key?_step keep incoming)]
    rfl

section Received

variable (keep : key ∉ columns) {batch : List Row} {row : Row}
include keep

/-- A column that no partner has, or that is not moved, stays as it is. -/
theorem get?_receive_of_silent {x : String}
    (silent : ∀ incoming ∈ batch, incoming.key? key = row.key? key → x ∈ columns →
      incoming.get? x = none) :
    (receive key columns batch row).get? x = row.get? x := by
  induction batch generalizing row with
  | nil => rfl
  | cons incoming rest ih =>
    have same := key?_step keep incoming row
    have here : (step key columns incoming row).get? x = row.get? x := by
      unfold step
      split
      · rename_i partner
        rw [Row.get?_take]
        split
        · rename_i moved
          rw [silent incoming (by simp) partner moved, Option.none_or]
        · rfl
      · rfl
    rw [receive, List.foldl_cons, ← receive]
    refine (ih ?_).trans here
    intro other found partner
    exact silent other (by simp [found]) (partner.trans same)

omit keep in
theorem receive_of_alone (alone : ∀ incoming ∈ batch, incoming.key? key ≠ row.key? key) :
    receive key columns batch row = row := by
  induction batch with
  | nil => rfl
  | cons incoming rest ih =>
    rw [receive, List.foldl_cons, ← receive, if_neg (alone incoming (by simp))]
    exact ih fun other found => alone other (by simp [found])

omit keep in
/-- In a batch without repeated keys a row has one partner at most. -/
theorem partner_unique (apart : (batch.filterMap (·.key? key)).Nodup) {incoming other : Row}
    (found : incoming ∈ batch) (known : other ∈ batch) {text : String}
    (keyed : incoming.key? key = some text) (named : other.key? key = some text) : incoming = other := by
  induction batch with
  | nil => cases found
  | cons first rest ih =>
    have later : (rest.filterMap (·.key? key)).Nodup :=
      ((List.sublist_cons_self first rest).filterMap _).nodup apart
    have alone {row : Row} (listed : row ∈ rest) (shown : row.key? key = some text)
        (head : first.key? key = some text) : False := by
      rw [List.filterMap_cons, head, List.nodup_cons] at apart
      exact apart.1 (List.mem_filterMap.mpr ⟨row, listed, shown⟩)
    obtain rfl | inRest := List.mem_cons.mp found <;> obtain rfl | otherInRest := List.mem_cons.mp known
    · rfl
    · exact (alone otherInRest named keyed).elim
    · exact (alone inRest keyed named).elim
    · exact ih later inRest otherInRest

/-- A row with a key takes the columns of its partner, if no two rows of the batch have the same key. -/
theorem takes_receive (apart : (batch.filterMap (·.key? key)).Nodup) {text : String}
    (keyed : row.key? key = some text) :
    Row.Takes key columns batch row (receive key columns batch row) where
  taken incoming found := by
    rintro ⟨_, named, partner⟩ x moved value holds
    obtain rfl := Option.some.inj (keyed.symm.trans named)
    refine get?_receive keep moved value (fun other known same => ?_)
      ⟨incoming, found, partner.trans keyed.symm⟩
    rw [partner_unique apart known found (same.trans keyed) partner, holds]
  kept x silent := get?_receive_of_silent keep fun incoming found partner =>
    silent incoming found ⟨text, keyed, partner.trans keyed⟩
  alone lonely := receive_of_alone fun incoming found partner =>
    lonely incoming found ⟨text, keyed, partner.trans keyed⟩

end Received

/-- Whether an earlier row has the key of the row in a place. -/
def RepeatsKey (rows : List Row) (key : String) (place : Nat) : Prop :=
  ∃ text, (rows[place]?).bind (·.key? key) = some text ∧
    ∃ earlier < place, (rows[earlier]?).bind (·.key? key) = some text

/-- Whether the key of the row in a place was seen, or stands in an earlier place. -/
def Passed (key : String) (seen : List String) (rows : List Row) (place : Nat) : Prop :=
  ∃ text, (rows[place]?).bind (·.key? key) = some text ∧
    (text ∈ seen ∨ ∃ earlier < place, (rows[earlier]?).bind (·.key? key) = some text)

theorem passed_nil_iff {rows : List Row} {place : Nat} :
    Passed key [] rows place ↔ RepeatsKey rows key place := by
  simp [Passed, RepeatsKey]

theorem passed_succ_iff {seen : List String} {first : Row} {rest : List Row} {place : Nat} :
    Passed key seen (first :: rest) (place + 1) ↔
      Passed key ((first.key? key).toList ++ seen) rest place := by
  unfold Passed
  refine exists_congr fun text => and_congr_right fun _ => ?_
  rw [List.mem_append, Option.mem_toList, Nat.exists_lt_succ_left]
  simp only [List.getElem?_cons_zero, List.getElem?_cons_succ, Option.bind_some]
  tauto

/-- A row without a key and a row whose key has passed stay, every other row is changed. -/
theorem getElem?_onFirst (key : String) (change : Row → Row) {seen : List String} {rows : List Row}
    {place : Nat} {row : Row} (here : rows[place]? = some row) :
    (onFirst key change seen rows)[place]? = some row ∧
        (row.key? key = none ∨ Passed key seen rows place) ∨
      (onFirst key change seen rows)[place]? = some (change row) ∧
        (∃ text, row.key? key = some text) ∧ ¬Passed key seen rows place := by
  induction rows generalizing seen place with
  | nil => cases here
  | cons first rest ih =>
    cases place with
    | zero =>
      obtain rfl := Option.some.inj here
      rw [onFirst]
      cases keyed : first.key? key with
      | none => exact .inl ⟨rfl, .inl rfl⟩
      | some text =>
        by_cases known : text ∈ seen
        · exact .inl ⟨by simp [known], .inr ⟨text, keyed, .inl known⟩⟩
        · refine .inr ⟨by simp [known], ⟨text, rfl⟩, ?_⟩
          rintro ⟨other, named, passed | ⟨_, less, _⟩⟩
          · obtain rfl := Option.some.inj (keyed.symm.trans named)
            exact known passed
          · exact absurd less (Nat.not_lt_zero _)
    | succ place =>
      have later : rest[place]? = some row := here
      rw [passed_succ_iff, onFirst]
      cases keyed : first.key? key with
      | none => exact ih later
      | some text =>
        by_cases known : text ∈ seen
        · have listed (other : String) : other ∈ text :: seen ↔ other ∈ seen :=
            List.mem_cons.trans (or_iff_right_of_imp fun same => same ▸ known)
          have same : Passed key (text :: seen) rest place ↔ Passed key seen rest place := by
            simp only [Passed, listed]
          have stays := @ih seen place later
          simpa [known, same] using stays
        · have changes := @ih (text :: seen) place later
          simpa [known] using changes

/-- A row takes the columns of its partner unless it repeats the key of an earlier row: then it stays as it
is. -/
theorem getElem?_merge (keep : key ∉ columns) {rows batch : List Row}
    (apart : (batch.filterMap (·.key? key)).Nodup) {place : Nat} {row : Row}
    (here : rows[place]? = some row) :
    ∃ merged, (merge rows batch key columns)[place]? = some merged ∧
      (RepeatsKey rows key place → merged = row) ∧
      (¬RepeatsKey rows key place → row.Takes key columns batch merged) := by
  rw [merge_eq_onFirst keep]
  obtain ⟨there, stays⟩ | ⟨there, ⟨text, keyed⟩, fresh⟩ :=
    @getElem?_onFirst key (receive key columns batch) [] rows place row here
  · refine ⟨row, there, fun _ => rfl, fun first => ?_⟩
    rw [passed_nil_iff] at stays
    exact Row.takes_of_keyless (stays.resolve_right first)
  · rw [passed_nil_iff] at fresh
    exact ⟨_, there, fun repeats => absurd repeats fresh, fun _ => takes_receive keep apart keyed⟩

theorem merge_keys (keep : key ∉ columns) (rows batch : List Row) :
    (merge rows batch key columns).map (·.key? key) = rows.map (·.key? key) := by
  have held : List.Forall₂ (Row.SameBut columns) rows (merge rows batch key columns) :=
    merge_sameBut rows batch
  rw [map_eq_map_iff_forall₂]
  refine held.flip.imp fun merged row same => ?_
  rw [Row.key?, Row.key?, same key keep]

/-- Whether merging a batch reaches every row. -/
def MergesAll (rows batch : List Row) (key : String) (columns : List String) : Prop :=
  List.Forall₂ (Row.Takes key columns batch) rows (merge rows batch key columns)

/-- Merging a batch leaves the rows and their keys in their places. A row takes the columns of its partner
unless it repeats the key of an earlier row: then it stays as it is. So the batch reaches every row exactly
if those that repeat a key have nothing to take. -/
theorem merge_reaches_first (keep : key ∉ columns) (rows : List Row) {batch : List Row}
    (apart : (batch.filterMap (·.key? key)).Nodup) :
    (merge rows batch key columns).map (·.key? key) = rows.map (·.key? key) ∧
    (∀ place row, rows[place]? = some row →
      ∃ merged, (merge rows batch key columns)[place]? = some merged ∧
        (RepeatsKey rows key place → merged = row) ∧
        (¬RepeatsKey rows key place → row.Takes key columns batch merged)) ∧
    (MergesAll rows batch key columns ↔ ∀ place row, rows[place]? = some row →
      RepeatsKey rows key place → row.Takes key columns batch row) := by
  refine ⟨merge_keys keep rows batch, fun place row here => getElem?_merge keep apart here,
    fun all place row here repeats => ?_, fun nothing => ?_⟩
  · obtain ⟨merged, there, stays, -⟩ := getElem?_merge keep apart here
    have takes := (forall₂_iff_getElem?.mp all).2 place row merged here there
    rwa [stays repeats] at takes
  · have long : rows.length = (merge rows batch key columns).length := by
      simpa using (congrArg List.length (merge_keys keep rows batch)).symm
    refine forall₂_iff_getElem?.mpr ⟨long, fun place row merged here there => ?_⟩
    obtain ⟨other, found, stays, takes⟩ := getElem?_merge keep apart here
    obtain rfl := Option.some.inj (found.symm.trans there)
    by_cases repeats : RepeatsKey rows key place
    · rw [stays repeats]
      exact nothing place row here repeats
    · exact takes repeats

namespace Library

def first : Row := [("id", .int 1), ("book", .int 10)]

def second : Row := [("id", .int 1), ("book", .int 11)]

/-- The tags of an author who is listed with each of two books. -/
def tags : Row := [("id", .int 1), ("tags", .str "[5]")]

end Library

open Library in
theorem merge_reaches_first_library :
    "id" ∉ ["tags"] ∧ ([tags].filterMap (·.key? "id")).Nodup ∧
      ∃ merged, (merge [first, second] [tags] "id" ["tags"])[0]? = some merged ∧
        first.Takes "id" ["tags"] [tags] merged := by
  have keep : "id" ∉ ["tags"] := by decide
  have apart : ([tags].filterMap (·.key? "id")).Nodup := by decide
  obtain ⟨merged, there, -, takes⟩ := (merge_reaches_first keep [first, second] apart).2.1 0 first rfl
  exact ⟨keep, apart, merged, there, takes fun ⟨_, _, _, less, _⟩ => Nat.not_lt_zero _ less⟩

open Library in
/-- The second row of the author does not get the tags. -/
theorem not_mergesAll_library : ¬MergesAll [first, second] [tags] "id" ["tags"] := by
  intro all
  have takes : second.Takes "id" ["tags"] [tags] second :=
    (forall₂_iff_getElem?.mp all).2 1 second second rfl rfl
  have partner : second.Partners "id" tags := ⟨"1", by decide, by decide⟩
  have moved := takes.taken tags (by simp) partner "tags" (by simp) (.str "[5]") rfl
  exact absurd moved (by decide)

end Rows
end EagerLoad
