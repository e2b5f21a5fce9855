import EagerLoad.Entity.Selection
import EagerLoad.Proofs.Ordered

/-! # What entities, registries and memos hold

A selection resolves to columns if all names that it asks for are valid. A registry knows every entity by its
own type. A memo keeps the first localization that it is told of a type, so it never finds another one for an
entity that was looked up. -/
namespace EagerLoad

theorem Entity.fields_of_localization? {e : Entity} {l : Localization}
    (declared : e.localization? = some l) : l.fields = e.localizedFields := by
  obtain ⟨schema, localized, filled⟩ := Option.bind_eq_some_iff.mp declared
  unfold LocalizationSchema.localize? at filled
  split at filled
  · exact absurd filled (by simp)
  · obtain rfl := Option.some.inj filled
    rw [localizedFields, localized]
    rfl

namespace Columns

variable {e : Entity} {selection : ColumnSelection} {localization : Option Localization} {c : Columns}

theorem resolve_eq_ok_iff : resolve e selection localization = .ok c ↔
    (∀ x ∈ requested e selection localization, Identifier.fault? x = none) ∧
      (requested e selection localization).foldl (insert e localization.isSome) {} = c := by
  rw [← List.findSome?_eq_none_iff]
  unfold resolve
  dsimp only
  cases (requested e selection localization).findSome? Identifier.fault? <;> simp

/-- What holds of no columns, and is kept when one is taken up, holds of the columns of a selection. -/
theorem of_resolve {P : Columns → Prop} (empty : P {})
    (kept : ∀ c column, P c → P (insert e localization.isSome c column))
    (resolved : resolve e selection localization = .ok c) : P c := by
  obtain ⟨-, rfl⟩ := resolve_eq_ok_iff.mp resolved
  exact List.foldlRecOn _ _ empty fun c known column _ => kept c column known

theorem mem_names_insert (e : Entity) (localized : Bool) (c : Columns) (column x : String) :
    x ∈ (insert e localized c column).names ↔
      x ∈ c.names ∨ x = column ∧ (x ∈ e.localizedFields → localized = true) := by
  unfold insert
  by_cases own : column ∈ e.localizedFields
  · rw [if_pos (by simpa using own)]
    cases localized with
    | true => simp [names, or_assoc]
    | false =>
      have dropped : ¬(x = column ∧ (x ∈ e.localizedFields → false = true)) := by
        rintro ⟨rfl, readable⟩
        exact Bool.false_ne_true (readable own)
      rw [if_neg Bool.false_ne_true, or_iff_left dropped]
  · rw [if_neg (by simpa using own)]
    have kept : x = column → x ∈ e.localizedFields → localized = true := by
      rintro rfl unreadable
      exact absurd unreadable own
    simp only [names, List.mem_append, mem_addNew]
    grind

/-- A selection resolves to the columns that it asks for, without the localized ones that cannot be
read. -/
theorem mem_names_resolve {e : Entity} {selection : ColumnSelection}
    {localization : Option Localization} {c : Columns}
    (resolved : resolve e selection localization = .ok c) (x : String) :
    x ∈ c.names ↔ x ∈ requested e selection localization ∧
      (x ∈ e.localizedFields → localization.isSome = true) := by
  have fold (columns : List String) (c : Columns) :
      x ∈ (columns.foldl (insert e localization.isSome) c).names ↔
        x ∈ c.names ∨ x ∈ columns ∧ (x ∈ e.localizedFields → localization.isSome = true) := by
    induction columns generalizing c with
    | nil => simp
    | cons column rest ih =>
      rw [List.foldl_cons, ih, mem_names_insert, List.mem_cons]
      grind
  obtain ⟨-, rfl⟩ := resolve_eq_ok_iff.mp resolved
  have empty : x ∉ ({} : Columns).names := by simp [names]
  rw [fold, or_iff_right empty]

end Columns

namespace Registry

theorem resolve_eq_ok_iff {r : Registry} {type : String} {e : Entity} :
    r.resolve type = .ok e ↔ r.get? type = some e := by
  unfold resolve
  cases r.get? type <;> simp

def Sound (r : Registry) : Prop := ∀ type e, r.get? type = some e → e.type = type

theorem sound_nil : Sound [] := by
  intro type e found
  exact absurd found (by simp [get?])

theorem Sound.register {r : Registry} (sound : r.Sound) (e : Entity) : (r.register e).Sound := by
  intro type other found
  rw [get?, Registry.register, lookup_upsert] at found
  split at found
  · rename_i same
    obtain rfl := Option.some.inj found
    exact same.symm
  · exact sound type other found

end Registry

namespace Memo

theorem lookup_remember (m : Memo) (type x : String) (found : Option Localization) :
    (m.remember type found).lookup x =
      (m.lookup x).or (if x = type then some found else none) := by
  unfold remember
  split
  · rename_i known
    obtain ⟨first, known⟩ := Option.isSome_iff_exists.mp known
    by_cases same : x = type
    · simp [same, known]
    · simp [same]
  · rw [List.lookup_append, lookup_entry, List.lookup_nil]

/-- A localization that is remembered is found for the entities of its type. -/
theorem localization?_remember (m : Memo) (type : String) (found : Option Localization)
    (e : Entity) :
    (m.remember type found).localization? e =
      if e.type = type ∧ m.lookup type = none then found else m.localization? e := by
  rw [localization?, lookup_remember, localization?]
  by_cases same : e.type = type
  · subst same
    cases m.lookup e.type <;> simp
  · simp [same]

/-- An entity that was looked up decides what is found for its type. -/
theorem localization?_consult (m : Memo) (base e : Entity) :
    (m.consult base).localization? e =
      if e.type = base.type then m.localization? base else m.localization? e := by
  rw [consult, localization?_remember]
  by_cases same : e.type = base.type
  · rw [if_pos same]
    cases known : m.lookup base.type with
    | none => rw [if_pos ⟨same, rfl⟩]
    | some first => simp [localization?, same, known]
  · rw [if_neg same, if_neg fun both => same both.1]

def Knows (r : Registry) (base e : Entity) : Prop := e = base ∨ r.get? e.type = some e

/-- Whether two memos find the same for all entities that a query may meet. The base is looked up
before all others. -/
def Alike (r : Registry) (base : Entity) (m other : Memo) : Prop :=
  ∀ e, Knows r base e → (m.consult base).localization? e = (other.consult base).localization? e

variable {r : Registry} {base : Entity} {m other : Memo}

theorem Alike.refl (r : Registry) (base : Entity) (m : Memo) : Alike r base m m := fun _ _ => rfl

theorem Alike.trans {last : Memo} (alike : Alike r base m other) (next : Alike r base other last) :
    Alike r base m last := fun e meets => (alike e meets).trans (next e meets)

/-- Remembering what would be found anyway changes nothing. -/
theorem Alike.remember (alike : Alike r base m other) {known : Entity} (knows : Knows r base known) :
    Alike r base (m.remember known.type ((other.consult base).localization? known)) other := by
  intro e meets
  rw [← alike e meets, ← alike known knows]
  simp only [localization?_consult, localization?_remember]
  by_cases same : known.type = base.type
  · grind
  · have others : e.type = known.type → e = known := by
      intro type
      obtain rfl | registered := meets
      · exact absurd type.symm same
      · obtain rfl | held := knows
        · exact absurd rfl same
        · rw [type, held] at registered
          exact (Option.some.inj registered).symm
    grind

/-- For registered entities it makes no difference which of them is looked up first. -/
theorem Alike.of_registered (alike : Alike r base m other)
    (registered : r.get? base.type = some base) {next : Entity}
    (known : r.get? next.type = some next) : Alike r next m other := by
  have same {e : Entity} (held : r.get? e.type = some e) :
      m.localization? e = other.localization? e := by
    have found := alike e (.inr held)
    rw [localization?_consult, localization?_consult] at found
    split at found
    · rename_i type
      rw [type, registered] at held
      obtain rfl := Option.some.inj held
      exact found
    · exact found
  intro e meets
  have held : r.get? e.type = some e := by
    obtain rfl | held := meets
    · exact known
    · exact held
  rw [localization?_consult, localization?_consult]
  split
  · exact same known
  · exact same held

end Memo
end EagerLoad
