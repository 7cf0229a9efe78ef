/-
Instructions from words. The leading nibble selects the family, its remaining nibbles the operation and the operands;
`8XYN`, `EXNN` and `FXNN` have gaps, and `5XY0` and `9XY0` have to end in zero.
-/
import ChipEight.Instruction

namespace ChipEight

/-- the operation that the last nibble of an `8XYN` word names -/
def AluOp.ofNibble? : Nat → Option AluOp
  | 0x0 => some .load
  | 0x1 => some .or
  | 0x2 => some .and
  | 0x3 => some .xor
  | 0x4 => some .add
  | 0x5 => some .sub
  | 0x6 => some .shiftRight
  | 0x7 => some .subFrom
  | 0xE => some .shiftLeft
  | _ => none

namespace Instruction

/-- the instruction of an `0NNN` word -/
def ofSystemWord (w : Word) : Instruction :=
  if w = 0x00E0 then .clearScreen else if w = 0x00EE then .ret else .machineRoutine w.nnn

/-- the instruction of an `EXNN` word, if there is one -/
def ofKeyWord? (w : Word) : Option Instruction :=
  if w.nn = 0x9E then some (.skipPressed w.x)
  else if w.nn = 0xA1 then some (.skipNotPressed w.x)
  else none

/-- the instruction of an `FXNN` word, if there is one -/
def ofMiscWord? (w : Word) : Option Instruction :=
  if w.nn = 0x07 then some (.readDelay w.x)
  else if w.nn = 0x0A then some (.awaitKey w.x)
  else if w.nn = 0x15 then some (.setDelay w.x)
  else if w.nn = 0x18 then some (.setSound w.x)
  else if w.nn = 0x1E then some (.addIndex w.x)
  else if w.nn = 0x29 then some (.pointGlyph w.x)
  else if w.nn = 0x33 then some (.storeDigits w.x)
  else if w.nn = 0x55 then some (.storeRegisters w.x)
  else if w.nn = 0x65 then some (.fillRegisters w.x)
  else none

def decode? (w : Word) : Option Instruction :=
  match w.kind with
  | 0x0 => some (ofSystemWord w)
  | 0x1 => some (.jump w.nnn)
  | 0x2 => some (.call w.nnn)
  | 0x3 => some (.skipEqual w.x w.nn)
  | 0x4 => some (.skipNotEqual w.x w.nn)
  | 0x5 => if w.n = 0 then some (.skipSame w.x w.y) else none
  | 0x6 => some (.load w.x w.nn)
  | 0x7 => some (.add w.x w.nn)
  | 0x8 => (AluOp.ofNibble? w.n).map fun op => .alu op w.x w.y
  | 0x9 => if w.n = 0 then some (.skipDifferent w.x w.y) else none
  | 0xA => some (.loadIndex w.nnn)
  | 0xB => some (.jumpOffset w.nnn)
  | 0xC => some (.random w.x w.nn)
  | 0xD => some (.draw w.x w.y (.ofNat w.n))
  | 0xE => ofKeyWord? w
  | _ => ofMiscWord? w

/-- the instruction of a word, or the word as the cause -/
def decode (w : Word) : Except WordError Instruction :=
  match decode? w with
  | some i => .ok i
  | none => .error (.unknown w)

end Instruction

end ChipEight
