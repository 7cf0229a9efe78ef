/-
The accesses that instructions are made of: to registers by their number, to blocks of memory, to the call stack, the
display and the random stream. Each checks its operands before it does anything.

A register that there is not, a block that is no slice of the memory, and a copy between blocks of unequal length are
outside of the contract. A block that ends behind the memory is an error.
-/
import ChipEight.Machine

namespace ChipEight

/-- the bytes from `start` up to but without `stop`; they are a slice only if they are in order and in the memory -/
structure Span where
  start : Size
  stop : Size
deriving DecidableEq, Repr

namespace Span

def length (b : Span) : Nat := b.stop.toNat - b.start.toNat

/-- the span as a slice of the memory -/
def check (b : Span) : Except (Failure CycleError) Unit :=
  if b.start ≤ b.stop ∧ b.stop.toNat ≤ Memory.size then .ok () else .error .contract

/-- `length` bytes from `start` on, if they end within the memory; the end is a sum at 64 bits -/
def within (start length : Size) : Except (Failure CycleError) Span :=
  if (start + length).toNat ≤ Memory.size then .ok ⟨start, start + length⟩
  else .error (.error (.memoryAccess start length))

end Span

namespace Registers

/-- the register of flags -/
def flag : Fin 16 := 15

/-- a condition as a flag -/
def ofBool (condition : Bool) : UInt8 := if condition then 1 else 0

/-- the register with this number -/
def lookup (x : Size) : Except (Failure CycleError) (Fin 16) :=
  if h : x.toNat < 16 then .ok ⟨x.toNat, h⟩ else .error .contract

/-- the first registers from bytes, the others as they are -/
def fill (r : Registers) (bytes : List UInt8) : Registers :=
  Vector.ofFn fun i => bytes[i.val]?.getD (r.get i)

end Registers

/-- a fallible operation of the machine -/
abbrev Handler := Attempt Event Machine (Failure CycleError)

namespace Handler

open Attempt (reads modify emit fail)

/-! ## Registers -/

/-- what VX holds -/
def register (x : Size) : Handler UInt8 := do
  let i ← Registers.lookup x
  reads fun m => m.registers.get i

def setRegister (x : Size) (v : UInt8) : Handler Unit := do
  let i ← Registers.lookup x
  modify fun m => { m with registers := m.registers.put i v }

def setFlag (v : UInt8) : Handler Unit :=
  modify fun m => { m with registers := m.registers.put Registers.flag v }

/-- what the registers up to VX hold -/
def registersTo (x : Size) : Handler (List UInt8) := do
  let i ← Registers.lookup x
  reads fun m => m.registers.toList.take (i.val + 1)

/-! ## Copies -/

/-- a copy is between as many bytes -/
def copied (bytes : List UInt8) (length : Nat) : Except (Failure CycleError) Unit :=
  if bytes.length = length then .ok () else .error .contract

/-- the bytes of a span -/
def slice (b : Span) : Handler (List UInt8) := do
  b.check
  reads fun m => m.memory.read b.start.toNat b.length

/-- writes what `source` gives over a span; that this is a slice is checked first -/
def copyToMemory (b : Span) (source : Handler (List UInt8)) : Handler Unit := do
  b.check
  let bytes ← source
  copied bytes b.length
  modify fun m => { m with memory := m.memory.write b.start.toNat bytes }

/-- writes what `source` gives to the registers up to VX; that VX is there is checked first -/
def copyToRegisters (x : Size) (source : Handler (List UInt8)) : Handler Unit := do
  let i ← Registers.lookup x
  let bytes ← source
  copied bytes (i.val + 1)
  modify fun m => { m with registers := m.registers.fill bytes }

/-! ## The call stack -/

def push (address : UInt16) : Handler Unit := do
  if (← reads fun m => m.stack.length) < Machine.stackLimit then
    modify fun m => { m with stack := address :: m.stack }
  else
    fail (.error (.stack .full))

def pop : Handler UInt16 := do
  match ← reads Machine.stack with
  | [] => fail (.error (.stack .empty))
  | address :: rest =>
    modify fun m => { m with stack := rest }
    pure address

/-! ## Around the machine -/

def log (message : Message) : Handler Unit := emit (.log message)

def clearDisplay : Handler Unit := do
  modify fun m => { m with screen := .blank }
  emit .clear

/-- draws a sprite on the display; whether it hit a pixel that was on -/
def drawSprite (sprite : List UInt8) (column row : UInt8) : Handler Bool := do
  let screen ← reads Machine.screen
  modify fun m => { m with screen := screen.draw sprite column.toNat row.toNat }
  emit (.draw column row sprite)
  pure (screen.collides sprite column.toNat row.toNat)

/-- takes the next random byte -/
def takeRandom : Handler UInt8 := do
  let byte ← reads fun m => m.random.head
  modify fun m => { m with random := m.random.tail }
  pure byte

end Handler

end ChipEight
