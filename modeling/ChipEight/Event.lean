/-
What operations do to the outside, as data: calls to the display and the beeper, notes to the two periodic tasks, and
log messages with their level and text.
-/
import ChipEight.Decimal
import ChipEight.Fault
import ChipEight.Instruction.Text

namespace ChipEight

inductive Level where
  | trace
  | debug
  | info
  | warn
  | error
deriving DecidableEq, Repr

def Level.text : Level → String
  | .trace => "trace"
  | .debug => "debug"
  | .info => "info"
  | .warn => "warn"
  | .error => "error"

inductive Message where
  /-- an instruction is about to run -/
  | decoded (word : Word) (instruction : Instruction)
  | routineIgnored (nnn : UInt16)
  | keyAwaited (x : Size)
  | keyTaken (key : UInt8) (x : Size)
  | toneOn
  | toneOff
  | loading (name : String) (size : Nat)
  | resetting
  | starting (speed : Float)
  | stopped
  | alreadyRunning
  | halting (cause : CycleError)
  | threadPanicked
deriving Repr

namespace Message

def level : Message → Level
  | .decoded .. => .trace
  | .routineIgnored _ | .keyAwaited _ | .keyTaken .. | .toneOn | .toneOff => .debug
  | .loading .. | .resetting | .starting _ | .stopped => .info
  | .alreadyRunning | .threadPanicked => .warn
  | .halting _ => .error

/-- a register by its hexadecimal number -/
def registerName (x : Size) : String := "V" ++ String.ofList (Hex.digits x.toNat)

def text : Message → String
  | .decoded word instruction => Hex.literal 4 word.toNat ++ " " ++ instruction.text
  | .routineIgnored nnn => "Ignoring the machine code routine at " ++ Hex.literal 3 nnn.toNat
  | .keyAwaited x => "Waiting for a key press to store in " ++ registerName x
  | .keyTaken key x => "Key " ++ Hex.literal 1 key.toNat ++ " pressed, storing it in " ++ registerName x
  | .toneOn => "Starting to beep"
  | .toneOff => "Stopping to beep"
  | .loading name size => "Loading the rom '" ++ name ++ "' (" ++ toString size ++ " bytes)"
  | .resetting => "Resetting the chipset"
  | .starting speed => "Starting at " ++ Decimal.text speed ++ " times the speed"
  | .stopped => "Stopped"
  | .alreadyRunning => "The interpreter is already running"
  | .halting cause => "Halting the cpu: " ++ cause.message
  | .threadPanicked => "The worker thread ended with a panic."

end Message

/-- the two periodic tasks -/
inductive TaskName where
  | cpu
  | timer
deriving DecidableEq, Repr

/-- what a task is told -/
inductive TaskNote where
  /-- to run once every interval, in nanoseconds -/
  | start (interval : UInt64)
  | stop
deriving DecidableEq, Repr

inductive Event where
  /-- the display is cleared -/
  | clear
  /-- a sprite is drawn on the display -/
  | draw (x y : UInt8) (sprite : List UInt8)
  | startBeep
  | stopBeep
  | log (message : Message)
  | task (name : TaskName) (note : TaskNote)
deriving Repr

namespace Event

/-- whether the display is called -/
def onDisplay : Event → Bool
  | .clear | .draw .. => true
  | _ => false

/-- whether the beeper is called -/
def onBeeper : Event → Bool
  | .startBeep | .stopBeep => true
  | _ => false

end Event

end ChipEight
