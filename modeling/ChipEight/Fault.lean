/-
Why a cycle of the machine fails, each cause with the text that reports it. A cause from the word or the stack is
quoted in a text of its own.
-/
import ChipEight.Hex
import ChipEight.Word

namespace ChipEight

def WordError.message : WordError → String
  | .unknown word => "An unsupported opcode was used " ++ Hex.literal 4 word.toNat ++ "."
  | .outside pointer size =>
    "Pointer location invalid there can not be an opcode at " ++ toString pointer.toNat ++ ", if data len is " ++
      toString size

inductive StackError where
  /-- a call with sixteen return addresses on the stack -/
  | full
  /-- a return without one -/
  | empty
deriving DecidableEq, Repr

def StackError.message : StackError → String
  | .full => "Stack is full!"
  | .empty => "Stack is empty!"

inductive CycleError where
  | word (cause : WordError)
  | stack (cause : StackError)
  /-- not all of `length` bytes from `address` on lie within the memory -/
  | memoryAccess (address length : Size)
  /-- no instruction starts at an odd address -/
  | misalignedJump (address : UInt16)
deriving DecidableEq, Repr

def CycleError.message : CycleError → String
  | .word cause => "Invalid opcode state '" ++ cause.message ++ "'."
  | .stack cause => "Invalid stack state '" ++ cause.message ++ "'."
  | .memoryAccess address length =>
    "Memory access of " ++ toString length.toNat ++ " bytes at " ++ Hex.literal 4 address.toNat ++ " is out of bounds."
  | .misalignedJump address =>
    "Jump to " ++ Hex.literal 4 address.toNat ++ ", which is not on an instruction boundary."

end ChipEight
