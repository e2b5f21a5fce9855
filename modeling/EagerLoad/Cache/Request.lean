import EagerLoad.Row

/-! # The request cache

Rows are kept by key until the cache is cleared. A reader notes the generation before it executes,
and its rows are accepted only if no clear has come in between. -/
namespace EagerLoad

structure RequestCache where
  entries : List (String × List Row) := []
  generation : Nat := 0

namespace RequestCache

def get? (c : RequestCache) (key : String) : Option (List Row) := c.entries.lookup key

/-- Keeps rows that were computed in the current generation, and says whether it did. -/
def put (c : RequestCache) (key : String) (rows : List Row) (observed : Nat) :
    RequestCache × Bool :=
  if observed = c.generation then ({ c with entries := upsert key rows c.entries }, true)
  else (c, false)

/-- Removes an entry, and says whether there was one. -/
def forget (c : RequestCache) (key : String) : RequestCache × Bool :=
  ({ c with entries := c.entries.filter fun e => e.1 != key }, (c.get? key).isSome)

def clear (c : RequestCache) : RequestCache := { entries := [], generation := c.generation + 1 }

def size (c : RequestCache) : Nat := c.entries.length

end RequestCache
end EagerLoad
