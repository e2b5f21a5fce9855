/-! # Bounds of numbers

Numbers that are kept in 32 or 64 bits stay below a power of two. -/
namespace EagerLoad.Bounds

def unsigned32 : Nat := 0x100000000

def unsigned64 : Nat := 0x10000000000000000

/-- Signed numbers of 32 bits are below this, and not below its negative. -/
def signed32 : Nat := 0x80000000

def signed64 : Nat := 0x8000000000000000

end EagerLoad.Bounds
