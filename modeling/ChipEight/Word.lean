/-
Instruction words: sixteen bits, stored with the high byte first. Their fields are named by the letters of the usual
tables: `kind` the leading nibble, `x` and `y` register numbers, `n`, `nn` and `nnn` the last nibble, byte and twelve
bits.
-/
import ChipEight.Outcome

namespace ChipEight

/-- positions, lengths and register numbers: 64 bits, sums wrap around -/
abbrev Size := UInt64

/-- an instruction word -/
abbrev Word := UInt16

/-- why there is no instruction to run -/
inductive WordError where
  /-- no instruction has this word -/
  | unknown (word : Word)
  /-- there is no whole word at `pointer` in `size` bytes -/
  | outside (pointer : Size) (size : Nat)
deriving DecidableEq, Repr

namespace Word

/-- the nibble at a place, counted from the right -/
def nibble (w : Word) (place : Nat) : Nat := w.toNat / Nat.pow 16 place % 16

def kind (w : Word) : Nat := w.nibble 3
def x (w : Word) : Size := .ofNat (w.nibble 2)
def y (w : Word) : Size := .ofNat (w.nibble 1)
def n (w : Word) : Nat := w.nibble 0
def nn (w : Word) : UInt8 := .ofNat w.toNat
def nnn (w : Word) : UInt16 := .ofNat (w.toNat % 4096)

def ofBytes (high low : UInt8) : Word := .ofNat (high.toNat * 256 + low.toNat)

/-- the word in two bytes, as it is stored -/
def bytes (w : Word) : List UInt8 := [.ofNat (w.toNat / 256), .ofNat w.toNat]

/-- The word at `pointer` and the byte after it. The position of the second byte is a sum at 64 bits, so the last
pointer there is passes the check, and nothing can be read at it. -/
def read (data : Array UInt8) (pointer : Size) : Except (Failure WordError) Word :=
  if (pointer + 1).toNat < data.size then
    match data[pointer.toNat]?, data[(pointer + 1).toNat]? with
    | some high, some low => .ok (ofBytes high low)
    | _, _ => .error .contract
  else
    .error (.error (.outside pointer data.size))

end Word

end ChipEight
