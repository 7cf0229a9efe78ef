/-
Words from instructions: the layout that `decode?` reads. `Fits` says that the operands of an instruction fit the
fields of a word, which is what makes the word stand for it.
-/
import ChipEight.Instruction

namespace ChipEight

/-- the last nibble of an `8XYN` word -/
def AluOp.nibble : AluOp → Nat
  | .load => 0x0
  | .or => 0x1
  | .and => 0x2
  | .xor => 0x3
  | .add => 0x4
  | .sub => 0x5
  | .shiftRight => 0x6
  | .subFrom => 0x7
  | .shiftLeft => 0xE

namespace Instruction

/-- a word from its leading nibble and an address -/
def addressWord (kind : Nat) (nnn : UInt16) : Word := .ofNat (kind * 4096 + nnn.toNat)

/-- a word from its leading nibble, a register number and a byte -/
def byteWord (kind : Nat) (x : Size) (nn : UInt8) : Word := .ofNat (kind * 4096 + x.toNat * 256 + nn.toNat)

/-- a word from its leading nibble, two register numbers and a nibble -/
def pairWord (kind : Nat) (x y : Size) (n : Nat) : Word :=
  .ofNat (kind * 4096 + x.toNat * 256 + y.toNat * 16 + n)

def encode : Instruction → Word
  | .clearScreen => 0x00E0
  | .ret => 0x00EE
  | .machineRoutine nnn => addressWord 0x0 nnn
  | .jump nnn => addressWord 0x1 nnn
  | .call nnn => addressWord 0x2 nnn
  | .skipEqual x nn => byteWord 0x3 x nn
  | .skipNotEqual x nn => byteWord 0x4 x nn
  | .skipSame x y => pairWord 0x5 x y 0
  | .load x nn => byteWord 0x6 x nn
  | .add x nn => byteWord 0x7 x nn
  | .alu op x y => pairWord 0x8 x y op.nibble
  | .skipDifferent x y => pairWord 0x9 x y 0
  | .loadIndex nnn => addressWord 0xA nnn
  | .jumpOffset nnn => addressWord 0xB nnn
  | .random x nn => byteWord 0xC x nn
  | .draw x y n => pairWord 0xD x y n.toNat
  | .skipPressed x => byteWord 0xE x 0x9E
  | .skipNotPressed x => byteWord 0xE x 0xA1
  | .readDelay x => byteWord 0xF x 0x07
  | .awaitKey x => byteWord 0xF x 0x0A
  | .setDelay x => byteWord 0xF x 0x15
  | .setSound x => byteWord 0xF x 0x18
  | .addIndex x => byteWord 0xF x 0x1E
  | .pointGlyph x => byteWord 0xF x 0x29
  | .storeDigits x => byteWord 0xF x 0x33
  | .storeRegisters x => byteWord 0xF x 0x55
  | .fillRegisters x => byteWord 0xF x 0x65

/-- the operands fit their fields, and no routine has the word of another instruction -/
def Fits : Instruction → Prop
  | .clearScreen | .ret => True
  | .machineRoutine nnn => nnn < 0x1000 ∧ nnn ≠ 0x0E0 ∧ nnn ≠ 0x0EE
  | .jump nnn | .call nnn | .loadIndex nnn | .jumpOffset nnn => nnn < 0x1000
  | .skipSame x y | .skipDifferent x y | .alu _ x y => x < 16 ∧ y < 16
  | .draw x y n => x < 16 ∧ y < 16 ∧ n < 16
  | .skipEqual x _ | .skipNotEqual x _ | .load x _ | .add x _ | .random x _ => x < 16
  | .skipPressed x | .skipNotPressed x | .readDelay x | .awaitKey x | .setDelay x | .setSound x | .addIndex x
  | .pointGlyph x | .storeDigits x | .storeRegisters x | .fillRegisters x => x < 16

end Instruction

end ChipEight
