import EagerLoad.Bounds
import EagerLoad.Json.Basic

/-! # Reading records out of JSON

Readers for the shapes that typed values take in JSON: a record is an object or the list of its
fields in order, and a variant is its name or an object with that one name. -/
namespace EagerLoad.Json

def string? : Json → Option String
  | str s => some s
  | _ => none

def bool? : Json → Option Bool
  | bool b => some b
  | _ => none

def int? (low high : Int) : Json → Option Int
  | int i => if low ≤ i ∧ i ≤ high then some i else none
  | _ => none

def nat? (limit : Nat) : Json → Option Nat
  | int (.ofNat n) => if n < limit then some n else none
  | _ => none

def word? : Json → Option Nat := nat? Bounds.unsigned64

/-- A floating point number, or the one nearest to a whole number. -/
def float? : Json → Option Binary64
  | float x => some x
  | int i => some (Binary64.ofInt i)
  | _ => none

def list? (item : Json → Option α) : Json → Option (List α)
  | arr items => items.mapM item
  | _ => none

def nullable? (value : Json → Option α) : Json → Option (Option α)
  | null => some none
  | j => (value j).map some

/-- The contents of the named fields, absent ones included; other fields are ignored. A list gives
every field in order. -/
def record? (names : List String) : Json → Option (List (Option Json))
  | obj fields => some (names.map fun name => fields.lookup name)
  | arr items => if items.length = names.length then some (items.map some) else none
  | _ => none

def required? (value : Json → Option α) (field : Option Json) : Option α := field.bind value

/-- A field that is null when absent. -/
def optional? (value : Json → Option α) : Option Json → Option (Option α)
  | none => some none
  | some j => nullable? value j

def variant? : Json → Option (String × Option Json)
  | str name => some (name, none)
  | obj [(name, contents)] => some (name, some contents)
  | _ => none

def unit? (j : Json) : Option String :=
  match variant? j with
  | some (name, none) | some (name, some null) => some name
  | _ => none

/-- A field of an object, null when absent. -/
def get (j : Json) (name : String) : Json := (j.field? name).getD .null

/-- A list, empty when null. -/
def listOrEmpty? (item : Json → Option α) (j : Json) : Option (List α) :=
  (j.nullable? (list? item)).map fun items => items.getD []

def strings? (j : Json) : Option (List String) := j.listOrEmpty? string?

def flag? (j : Json) : Option Bool := (j.nullable? bool?).map fun b => b.getD false

def height : Json → Nat
  | arr items => heightItems items + 1
  | obj fields => heightFields fields + 1
  | _ => 0
where
  heightItems : List Json → Nat
    | [] => 0
    | item :: rest => max item.height (heightItems rest)
  heightFields : List (String × Json) → Nat
    | [] => 0
    | (_, value) :: rest => max value.height (heightFields rest)

end EagerLoad.Json
