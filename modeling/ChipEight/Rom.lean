/-
Roms: a program with a name, short enough for the part of memory from `0x200` on.
-/
import ChipEight.Memory

namespace ChipEight

/-- why some data is no rom -/
inductive RomError where
  | tooLarge (size limit : Nat)
deriving DecidableEq, Repr

def RomError.message : RomError → String
  | .tooLarge size limit =>
    "The rom is " ++ toString size ++ " bytes long, but only " ++ toString limit ++ " bytes fit into memory."

/-- the size of the program area -/
def Rom.capacity : Nat := Memory.size - Memory.programStart

structure Rom where
  name : String
  data : List UInt8
  data_le_capacity : data.length ≤ Rom.capacity
deriving DecidableEq, Repr

namespace Rom

def size (r : Rom) : Nat := r.data.length

/-- a rom of this data, if it fits -/
def ofData (name : String) (data : List UInt8) : Except RomError Rom :=
  if h : data.length ≤ capacity then .ok ⟨name, data, h⟩ else .error (.tooLarge data.length capacity)

/-- a rom without a program -/
def empty : Rom := ⟨"", [], Nat.zero_le _⟩

end Rom

end ChipEight
