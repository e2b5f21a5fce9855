import EagerLoad.Bounds
import EagerLoad.Decimal.Shortest

/-! # Durations

Whole seconds below two to the 64, and nanoseconds. -/
namespace EagerLoad

structure Duration where
  secs : Nat
  nanos : Nat
deriving DecidableEq, Repr, Inhabited

namespace Duration

def secsLimit : Nat := Bounds.unsigned64

def ofMillis (ms : Nat) : Duration := ⟨ms / 1000, ms % 1000 * 1000000⟩

def ofSecs (secs : Nat) : Duration := ⟨secs, 0⟩

/-- Carries whole seconds out of the nanoseconds, if the sum can be held. -/
def carry? (secs nanos : Nat) : Option Duration :=
  let total := secs + nanos / 1000000000
  if total < secsLimit then some ⟨total, nanos % 1000000000⟩ else none

def millis (d : Duration) : Nat := d.secs * 1000 + d.nanos / 1000000

def totalNanos (d : Duration) : Nat := d.secs * 1000000000 + d.nanos

def isZero (d : Duration) : Bool := d.secs == 0 && d.nanos == 0

/-- The seconds as a floating point number: the rounded seconds plus the rounded fraction. -/
def seconds (d : Duration) : Binary64 :=
  (Binary64.ofNat d.secs).addMagnitude
    ((Binary64.ofNat d.nanos).divMagnitude (Binary64.ofNat 1000000000))

end Duration
end EagerLoad
