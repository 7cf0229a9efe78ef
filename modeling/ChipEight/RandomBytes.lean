/-
An endless stream of random bytes and how many of them are taken.
-/
namespace ChipEight

structure RandomBytes where
  byte : Nat → UInt8
  taken : Nat

namespace RandomBytes

/-- the given bytes in turn, over and over; zeros if there are none -/
def ofScript (script : Array UInt8) : RandomBytes := ⟨fun i => script[i % script.size]?.getD 0, 0⟩

/-- the byte that is taken next -/
def head (r : RandomBytes) : UInt8 := r.byte r.taken

/-- the stream without it -/
def tail (r : RandomBytes) : RandomBytes := { r with taken := r.taken + 1 }

end RandomBytes

end ChipEight
