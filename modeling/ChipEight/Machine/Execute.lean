/-
What each instruction does, in the order in which it does it, and a poll of the keypad. The program counter already
points behind the running instruction; it moves on only if the instruction goes well. A failure leaves the machine as
the steps before it did.
-/
import ChipEight.Machine.Access

namespace ChipEight

/-- how the program counter goes on -/
inductive Step where
  | next
  /-- past the next instruction -/
  | skip
  | jump (address : UInt16)
deriving DecidableEq, Repr

namespace Step

def skipIf (condition : Bool) : Step := if condition then .skip else .next

/-- the size of an instruction -/
def wordSize : UInt16 := 2

/-- nothing is checked here, a skip wraps around at 16 bits -/
def apply (pc : UInt16) : Step → UInt16
  | .next => pc
  | .skip => pc + wordSize
  | .jump address => address

end Step

/-- what a cycle did, as the host sees it -/
inductive Operation where
  /-- nothing to show -/
  | plain
  /-- a key is awaited -/
  | wait
  /-- the display was called -/
  | draw
deriving DecidableEq, Repr

/-- what an instruction or a cycle came to -/
abbrev Report := Except (Failure CycleError) Operation

namespace Machine

/-- an address keeps its lower twelve bits -/
def address (a : UInt16) : UInt16 := .ofNat (a.toNat % Memory.size)

/-- where a jump goes, if an instruction can start there -/
def target (a : UInt16) : Except (Failure CycleError) UInt16 :=
  if (address a).toNat % 2 = 0 then .ok (address a) else .error (.error (.misalignedJump (address a)))

/-- the hundreds, tens and ones of a byte -/
def decimalDigits (b : UInt8) : List UInt8 := [b / 100, b / 10 % 10, b % 10]

/-- moves the program counter alone -/
def follow (m : Machine) (step : Step) : Machine := { m with pc := step.apply m.pc }

end Machine

namespace Handler

open Attempt (reads modify)

/-- A result goes to VX and then its flag to VF, so that the flag remains if X is F; but a shift writes its flag first
and shifts what VX holds then. -/
def alu (op : AluOp) (x y : Size) : Handler Unit := do
  let vx ← register x
  let vy ← register y
  match op with
  | .load => setRegister x vy
  | .or => setRegister x (vx ||| vy)
  | .and => setRegister x (vx &&& vy)
  | .xor => setRegister x (vx ^^^ vy)
  | .add =>
    setRegister x (vx + vy)
    setFlag (Registers.ofBool (255 < vx.toNat + vy.toNat))
  | .sub =>
    setRegister x (vx - vy)
    setFlag (Registers.ofBool (vy ≤ vx))
  | .shiftRight =>
    setFlag (vx &&& 1)
    setRegister x ((← register x) >>> 1)
  | .subFrom =>
    setRegister x (vy - vx)
    setFlag (Registers.ofBool (vx ≤ vy))
  | .shiftLeft =>
    setFlag (vx >>> 7)
    setRegister x ((← register x) <<< 1)

/-- `length` bytes of the memory from `I` on -/
def atIndex (length : Size) : Handler Span := do
  let index ← reads Machine.index
  Span.within index.toUInt64 length

def setIndex (index : UInt16) : Handler Unit := modify fun m => { m with index }

/-- how the program counter goes on, and what there is to tell the host -/
def instruction : Instruction → Handler (Step × Operation)
  | .clearScreen => do
    clearDisplay
    pure (.next, .draw)
  | .ret => do
    let address ← pop
    pure (.jump address, .plain)
  | .machineRoutine nnn => do
    log (.routineIgnored nnn)
    pure (.next, .plain)
  | .jump nnn => do
    let address ← Machine.target nnn
    pure (.jump address, .plain)
  | .call nnn => do
    let address ← Machine.target nnn
    push (← reads Machine.pc)
    pure (.jump address, .plain)
  | .skipEqual x nn => do
    let vx ← register x
    pure (.skipIf (vx == nn), .plain)
  | .skipNotEqual x nn => do
    let vx ← register x
    pure (.skipIf (vx != nn), .plain)
  | .skipSame x y => do
    let vx ← register x
    let vy ← register y
    pure (.skipIf (vx == vy), .plain)
  | .load x nn => do
    setRegister x nn
    pure (.next, .plain)
  | .add x nn => do
    let vx ← register x
    setRegister x (vx + nn)
    pure (.next, .plain)
  | .alu op x y => do
    alu op x y
    pure (.next, .plain)
  | .skipDifferent x y => do
    let vx ← register x
    let vy ← register y
    pure (.skipIf (vx != vy), .plain)
  | .loadIndex nnn => do
    setIndex (Machine.address nnn)
    pure (.next, .plain)
  | .jumpOffset nnn => do
    let v0 ← register 0
    let address ← Machine.target (nnn + v0.toUInt16)
    pure (.jump address, .plain)
  | .random x nn => do
    let byte ← takeRandom
    setRegister x (nn &&& byte)
    pure (.next, .plain)
  | .draw x y n => do
    let column ← register x
    let row ← register y
    let sprite ← slice (← atIndex n)
    let hit ← drawSprite sprite column row
    setFlag (Registers.ofBool hit)
    pure (.next, .draw)
  | .skipPressed x => do
    let key ← reads Machine.keypad
    let vx ← register x
    pure (.skipIf (key == some vx), .plain)
  | .skipNotPressed x => do
    let key ← reads Machine.keypad
    let vx ← register x
    pure (.skipIf (key != some vx), .plain)
  | .readDelay x => do
    setRegister x (← reads fun m => m.delay.value)
    pure (.next, .plain)
  | .awaitKey x => do
    log (.keyAwaited x)
    modify fun m => { m with awaiting := some x }
    pure (.next, .wait)
  | .setDelay x => do
    let vx ← register x
    modify fun m => { m with delay := ⟨vx⟩ }
    pure (.next, .plain)
  | .setSound x => do
    let vx ← register x
    modify fun m => { m with sound := ⟨vx⟩ }
    pure (.next, .plain)
  | .addIndex x => do
    let vx ← register x
    let index ← reads Machine.index
    setIndex (Machine.address (index + vx.toUInt16))
    pure (.next, .plain)
  | .pointGlyph x => do
    let vx ← register x
    setIndex (.ofNat (vx.toNat % 16 * Memory.glyphSize))
    pure (.next, .plain)
  | .storeDigits x => do
    let vx ← register x
    let block ← atIndex 3
    copyToMemory block (pure (Machine.decimalDigits vx))
    pure (.next, .plain)
  | .storeRegisters x => do
    let block ← atIndex (x + 1)
    copyToMemory block (registersTo x)
    pure (.next, .plain)
  | .fillRegisters x => do
    let block ← atIndex (x + 1)
    copyToRegisters x (slice block)
    pure (.next, .plain)

/-- an instruction and the move of the program counter, which there is only if the instruction goes well -/
def execute (i : Instruction) : Handler Operation := do
  let (step, operation) ← instruction i
  modify (·.follow step)
  pure operation

/-- the key that was awaited goes to VX -/
def takeKey (x : Size) (key : UInt8) : Handler Operation := do
  log (.keyTaken key x)
  setRegister x key
  modify fun m => { m with awaiting := none }
  pure .plain

/-- looks at the keypad once; a held key ends the wait -/
def poll (x : Size) : Handler Operation := do
  match ← reads Machine.keypad with
  | none => pure .wait
  | some key => takeKey x key

end Handler

namespace Machine

/-- runs one instruction, decoded already -/
def execute (m : Machine) (i : Instruction) : Outcome Event Machine Report := Handler.execute i m

/-- polls the keypad for the awaiting register -/
def poll (m : Machine) (x : Size) : Outcome Event Machine Report := Handler.poll x m

end Machine

end ChipEight
