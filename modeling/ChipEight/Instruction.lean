/-
The thirty-five instructions. The operand `x` or `y` is a register number, `n` a sprite height, `nn` a byte and `nnn`
an address. An instruction read from memory has operands that fit their nibbles; one handed in by a host may not.
-/
import ChipEight.Word

namespace ChipEight

/-- operations on two registers, the result goes to the first -/
inductive AluOp where
  | load
  | or
  | and
  | xor
  | add
  /-- first minus second -/
  | sub
  | shiftRight
  /-- second minus first -/
  | subFrom
  | shiftLeft
deriving DecidableEq, Repr

inductive Instruction where
  /-- the screen goes dark, `00E0` -/
  | clearScreen
  /-- back to the newest return address, `00EE` -/
  | ret
  /-- a routine of the host processor, ignored, `0NNN` -/
  | machineRoutine (nnn : UInt16)
  /-- on to NNN, `1NNN` -/
  | jump (nnn : UInt16)
  /-- on to NNN, with the way back kept, `2NNN` -/
  | call (nnn : UInt16)
  /-- skip if VX is NN, `3XNN` -/
  | skipEqual (x : Size) (nn : UInt8)
  /-- skip if VX is not NN, `4XNN` -/
  | skipNotEqual (x : Size) (nn : UInt8)
  /-- skip if VX is VY, `5XY0` -/
  | skipSame (x y : Size)
  /-- VX becomes NN, `6XNN` -/
  | load (x : Size) (nn : UInt8)
  /-- NN is added to VX without a carry, `7XNN` -/
  | add (x : Size) (nn : UInt8)
  /-- an operation on VX and VY, `8XY0` to `8XY7` and `8XYE` -/
  | alu (op : AluOp) (x y : Size)
  /-- skip if VX is not VY, `9XY0` -/
  | skipDifferent (x y : Size)
  /-- I becomes NNN, `ANNN` -/
  | loadIndex (nnn : UInt16)
  /-- on to NNN plus V0, `BNNN` -/
  | jumpOffset (nnn : UInt16)
  /-- VX becomes the common bits of a random byte and NN, `CXNN` -/
  | random (x : Size) (nn : UInt8)
  /-- N sprite rows from I are drawn at column VX and row VY, `DXYN` -/
  | draw (x y n : Size)
  /-- skip if the key VX is held, `EX9E` -/
  | skipPressed (x : Size)
  /-- skip if the key VX is not held, `EXA1` -/
  | skipNotPressed (x : Size)
  /-- VX becomes the delay countdown, `FX07` -/
  | readDelay (x : Size)
  /-- the next key goes to VX, `FX0A` -/
  | awaitKey (x : Size)
  /-- the delay countdown becomes VX, `FX15` -/
  | setDelay (x : Size)
  /-- the sound countdown becomes VX, `FX18` -/
  | setSound (x : Size)
  /-- VX is added to I, `FX1E` -/
  | addIndex (x : Size)
  /-- I becomes the font glyph of the low nibble of VX, `FX29` -/
  | pointGlyph (x : Size)
  /-- the three decimal digits of VX go to I, `FX33` -/
  | storeDigits (x : Size)
  /-- V0 to VX go to I, `FX55` -/
  | storeRegisters (x : Size)
  /-- V0 to VX come from I, `FX65` -/
  | fillRegisters (x : Size)
deriving DecidableEq, Repr

end ChipEight
