/-! # Ordered collections

Lists that keep the order in which their keys were first added. Adding again under a key replaces
the earlier item in its place. -/
namespace EagerLoad

/-- Replaces the value of a key in its place, or adds the key at the end. -/
def upsert (key : String) (value : α) : List (String × α) → List (String × α)
  | [] => [(key, value)]
  | (k, v) :: rest => if k = key then (key, value) :: rest else (k, v) :: upsert key value rest

/-- Adds an item at the end unless the list holds it. -/
def addNew (items : List String) (item : String) : List String :=
  if items.contains item then items else items ++ [item]

/-- The items in order of their first occurrence, each once. -/
def distinct (items : List String) : List String := items.foldl addNew []

/-- Replaces the first item with the same key in its place, or adds the item at the end. -/
def putBy (key : α → String) (item : α) : List α → List α
  | [] => [item]
  | x :: rest => if key x = key item then item :: rest else x :: putBy key item rest

end EagerLoad
