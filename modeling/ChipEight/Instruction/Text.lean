/-
The text of an instruction in the trace: the family, and in it the operands by name, numbers in decimal.
-/
import ChipEight.Instruction

namespace ChipEight

/-- one operand with its name -/
structure Operand where
  name : String
  text : String

namespace Operand

def ofNumber (name : String) (value : Nat) : Operand := ⟨name, toString value⟩

/-- a kind and its operands in braces -/
def record (kind : String) (operands : List Operand) : String :=
  kind ++ " \x7b " ++ ", ".intercalate (operands.map fun o => o.name ++ ": " ++ o.text) ++ " \x7d"

end Operand

/-- the name of an operation in the trace -/
def AluOp.text : AluOp → String
  | .load => "Load"
  | .or => "Or"
  | .and => "And"
  | .xor => "Xor"
  | .add => "Add"
  | .sub => "Sub"
  | .shiftRight => "ShiftRight"
  | .subFrom => "SubN"
  | .shiftLeft => "ShiftLeft"

namespace Instruction

open Operand

/-- a family with one argument -/
def family (name argument : String) : String := name ++ "(" ++ argument ++ ")"

def addressText (name : String) (nnn : UInt16) : String :=
  family name (record "Address" [ofNumber "nnn" nnn.toNat])

def byteText (name : String) (x : Size) (nn : UInt8) : String :=
  family name (record "RegisterByte" [ofNumber "x" x.toNat, ofNumber "nn" nn.toNat])

def pairText (name : String) (x y : Size) : String :=
  family name (record "RegisterPair" [ofNumber "x" x.toNat, ofNumber "y" y.toNat])

def keyText (op : String) (x : Size) : String :=
  family "Key" (record "KeyCheck" [⟨"ops", op⟩, ofNumber "x" x.toNat])

def miscText (op : String) (x : Size) : String :=
  family "Misc" (record "Misc" [⟨"ops", op⟩, ofNumber "x" x.toNat])

def text : Instruction → String
  | .clearScreen => family "System" "Clear"
  | .ret => family "System" "Return"
  | .machineRoutine nnn => family "System" (record "MachineCall" [ofNumber "nnn" nnn.toNat])
  | .jump nnn => addressText "Jump" nnn
  | .call nnn => addressText "Call" nnn
  | .skipEqual x nn => byteText "SkipEqualByte" x nn
  | .skipNotEqual x nn => byteText "SkipNotEqualByte" x nn
  | .skipSame x y => pairText "SkipEqualRegister" x y
  | .load x nn => byteText "LoadByte" x nn
  | .add x nn => byteText "AddByte" x nn
  | .alu op x y =>
    family "Arithmetic" (record "Arithmetic" [⟨"ops", op.text⟩, ofNumber "x" x.toNat, ofNumber "y" y.toNat])
  | .skipDifferent x y => pairText "SkipNotEqualRegister" x y
  | .loadIndex nnn => addressText "LoadIndex" nnn
  | .jumpOffset nnn => addressText "JumpOffset" nnn
  | .random x nn => byteText "Random" x nn
  | .draw x y n =>
    family "Draw" (record "Sprite" [ofNumber "x" x.toNat, ofNumber "y" y.toNat, ofNumber "n" n.toNat])
  | .skipPressed x => keyText "Pressed" x
  | .skipNotPressed x => keyText "NotPressed" x
  | .readDelay x => miscText "GetDelayTimer" x
  | .awaitKey x => miscText "AwaitKeyPress" x
  | .setDelay x => miscText "SetDelayTimer" x
  | .setSound x => miscText "SetSoundTimer" x
  | .addIndex x => miscText "AddVxToI" x
  | .pointGlyph x => miscText "SetIToSprite" x
  | .storeDigits x => miscText "StoreBCD" x
  | .storeRegisters x => miscText "StoreV0ToVx" x
  | .fillRegisters x => miscText "FillV0ToVx" x

end Instruction

end ChipEight
