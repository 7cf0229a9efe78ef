/-
The machine: registers, memory, call stack, the two countdowns, screen, keypad and a stream of random bytes. A machine
is made by `powerOn`; `load` resets it and puts a rom into its memory, whatever ran before, with its keypad and stream
kept; `tick` counts both countdowns down and keeps the tone in step with the sound countdown.
-/
import ChipEight.Countdown
import ChipEight.Event
import ChipEight.Keypad
import ChipEight.RandomBytes
import ChipEight.Rom
import ChipEight.Screen

namespace ChipEight

/-- the registers `V0` to `VF`; `VF` holds flags -/
abbrev Registers := Vector UInt8 16

namespace Registers

/-- what VX holds -/
def get (r : Registers) (x : Fin 16) : UInt8 := Vector.get r x

/-- VX holds something else -/
def put (r : Registers) (x : Fin 16) (v : UInt8) : Registers := r.setIfInBounds x v

theorem get_put (r : Registers) (x y : Fin 16) (v : UInt8) : (r.put x v).get y = if x = y then v else r.get y := by
  have hy : y.val < 16 := y.isLt
  have h : (r.put x v).get y = (r.setIfInBounds x v)[y.val] := rfl
  rw [h, Vector.getElem_setIfInBounds hy]
  simp only [Fin.val_inj]
  rfl

end Registers

structure Machine where
  /-- the word fetched last -/
  word : Word
  memory : Memory
  registers : Registers
  /-- the register `I` -/
  index : UInt16
  /-- the address of the next instruction -/
  pc : UInt16
  /-- return addresses, the newest first -/
  stack : List UInt16
  delay : Countdown
  sound : Countdown
  /-- whether the tone is on -/
  beeping : Bool
  /-- the register that the next key goes to, if one is awaited -/
  awaiting : Option Size
  screen : Screen
  keypad : Keypad
  random : RandomBytes

namespace Machine

/-- the limit of the call stack -/
def stackLimit : Nat := 16

/-- a machine without a program -/
def powerOn (random : RandomBytes) : Machine where
  word := 0
  memory := Memory.initial
  registers := Vector.replicate 16 0
  index := 0
  pc := .ofNat Memory.programStart
  stack := []
  delay := .zero
  sound := .zero
  beeping := false
  awaiting := none
  screen := .blank
  keypad := .released
  random := random

/-- ends the tone, if it is on -/
def silence (m : Machine) : Outcome Event Machine Unit :=
  if m.beeping then ⟨(), { m with beeping := false }, [.log .toneOff, .stopBeep]⟩ else .quiet () m

/-- starts the tone, unless it is on -/
def sing (m : Machine) : Outcome Event Machine Unit :=
  if m.beeping then .quiet () m else ⟨(), { m with beeping := true }, [.log .toneOn, .startBeep]⟩

/-- Zeros everywhere and the font in the memory, the counter at the start of the program. The tone ends and the display
is cleared last; the keypad and the random stream are kept. -/
def reset (m : Machine) : Outcome Event Machine Unit :=
  let m := { m with word := 0, memory := .replicate 4096 0 }
  let m := { m with memory := m.memory.loadFont }
  let m := { m with
    registers := .replicate 16 0
    index := 0
    pc := .ofNat Memory.programStart
    stack := []
    delay := .zero
    sound := .zero
    awaiting := none }
  m.silence.andThen fun _ m => ⟨(), { m with screen := .blank }, [.clear]⟩

/-- a reset and the program in memory -/
def load (m : Machine) (rom : Rom) : Outcome Event Machine Unit :=
  m.reset.change fun m => { m with memory := m.memory.write Memory.programStart rom.data }

/-- The tone goes on if the sound countdown is not at zero and off if it is; then both count down. So the tone is still
on at the tick that reaches zero, and ends with the next. -/
def tick (m : Machine) : Outcome Event Machine Unit :=
  (if m.sound.active then m.sing else m.silence).change fun m =>
    { m with delay := m.delay.tick, sound := m.sound.tick }

def press (m : Machine) (key : UInt8) : Except KeyError Machine :=
  match Keypad.press key with
  | .ok keypad => .ok { m with keypad }
  | .error e => .error e

def release (m : Machine) (key : UInt8) : Machine := { m with keypad := m.keypad.release key }

def clearKeys (m : Machine) : Machine := { m with keypad := .released }

def setRandom (m : Machine) (random : RandomBytes) : Machine := { m with random }

end Machine

end ChipEight
