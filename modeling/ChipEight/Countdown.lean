/-
A countdown: a byte that goes down by one at every tick and stays at zero.
-/
namespace ChipEight

structure Countdown where
  value : UInt8
deriving DecidableEq, Repr

namespace Countdown

def zero : Countdown := ⟨0⟩

def active (c : Countdown) : Bool := 0 < c.value

def tick (c : Countdown) : Countdown := if c.active then ⟨c.value - 1⟩ else c

def ticks (n : Nat) (c : Countdown) : Countdown := n.repeat tick c

theorem value_tick (c : Countdown) : c.tick.value.toNat = c.value.toNat - 1 := by
  unfold tick active
  by_cases h : (0 : UInt8) < c.value
  · have h1 : (1 : UInt8) ≤ c.value := by
      rw [UInt8.lt_iff_toNat_lt] at h
      rw [UInt8.le_iff_toNat_le]
      exact h
    simp [h, UInt8.toNat_sub_of_le _ _ h1]
  · have h0 : c.value.toNat = 0 := by
      rw [UInt8.lt_iff_toNat_lt] at h
      simpa using h
    simp [h, h0]

end Countdown

end ChipEight
