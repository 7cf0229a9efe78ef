/-
A console runs a machine by two periodic tasks: one runs a cycle at a time, the other counts the countdowns down. Both
act only while the `running` flag is set. A cycle that fails clears the flag and leaves its cause behind as the halt
report, and the timer task ends the tone the next time it is called.

A callback that was left over by an earlier start acts on the same machine under the same flag as the current one.
-/
import ChipEight.Machine.Cycle
import ChipEight.Pace

namespace ChipEight

/-- a periodic task as its owner knows it -/
structure Task where
  /-- the interval of the current callback, if there is one -/
  live : Option UInt64
  /-- whether a callback of an earlier start is kept -/
  leftOver : Bool
deriving DecidableEq, Repr

/-- the callbacks of a task -/
inductive Callback where
  | current
  | leftOver
deriving DecidableEq, Repr

namespace Task

def idle : Task := ⟨none, false⟩

def start (t : Task) (interval : UInt64) : Task := { t with live := some interval }

/-- a current callback is left over -/
def stop (t : Task) : Task := ⟨none, t.leftOver || t.live.isSome⟩

def has (t : Task) : Callback → Bool
  | .current => t.live.isSome
  | .leftOver => t.leftOver

/-- a callback that broke off is gone -/
def drop (t : Task) : Callback → Task
  | .current => { t with live := none }
  | .leftOver => { t with leftOver := false }

end Task

inductive ConsoleError where
  /-- a reload before any load -/
  | noRom
  | pace (cause : PaceError)
deriving Repr

def ConsoleError.message : ConsoleError → String
  | .noRom => "There is no rom loaded that could be reloaded."
  | .pace cause => "Invalid configuration '" ++ cause.message ++ "'."

/-- whether a callback wants to be called again -/
inductive Flow where
  | proceed
  | finish
deriving DecidableEq, Repr

structure Console where
  machine : Machine
  running : Bool
  /-- the halt report: why the last run ended on its own, until it is taken -/
  halted : Option CycleError
  pace : Pace
  /-- the rom loaded last -/
  rom : Option Rom
  cpu : Task
  timer : Task

namespace Console

/-- a stopped console without a rom -/
def powerOn (pace : Pace) (random : RandomBytes) : Console :=
  ⟨.powerOn random, false, none, pace, none, .idle, .idle⟩

/-- an operation on the machine alone -/
def onMachine {α : Type} (c : Console) (f : Machine → Outcome Event Machine α) : Outcome Event Console α :=
  let o := f c.machine
  ⟨o.value, { c with machine := o.state }, o.events⟩

/-! ## Runs -/

/-- tells both tasks to stop -/
def stopTasks (c : Console) : Outcome Event Console Unit :=
  ⟨(), { c with cpu := c.cpu.stop, timer := c.timer.stop }, [.task .cpu .stop, .task .timer .stop]⟩

/-- ends a run and the tone; the machine is kept as it is -/
def stop (c : Console) : Outcome Event Console Unit :=
  let o := { c with running := false }.stopTasks.andThen fun _ c => c.onMachine Machine.silence
  if c.running then o.note (.log .stopped) else o

/-- starts both tasks anew at the pace of the console, with no halt to report -/
def launch (c : Console) : Outcome Event Console Unit :=
  ⟨(), { c with
      running := true
      halted := none
      cpu := c.cpu.start c.pace.cpuInterval
      timer := c.timer.start c.pace.timerInterval },
    [.log (.starting c.pace.speed), .task .cpu (.start c.pace.cpuInterval),
      .task .timer (.start c.pace.timerInterval)]⟩

/-- starts a run; one that is on goes on -/
def start (c : Console) : Outcome Event Console Unit :=
  if c.running then ⟨(), c, [.log .alreadyRunning]⟩ else c.stopTasks.andThen fun _ c => c.launch

/-- a start if asked for -/
def startIf (c : Console) (begin : Bool) : Outcome Event Console Unit := if begin then c.start else .quiet () c

/-- ends a run, puts the rom into the machine and keeps it for a reload -/
def load (c : Console) (rom : Rom) (begin : Bool) : Outcome Event Console Unit :=
  ((c.stop.note (.log (.loading rom.name rom.size))).andThen fun _ c =>
    (c.onMachine (·.load rom)).change fun c => { c with halted := none, rom := some rom }).andThen fun _ c =>
      c.startIf begin

/-- the last load once more; the rom is taken out of its place, and the load puts it back -/
def reload (c : Console) (begin : Bool) : Outcome Event Console (Except ConsoleError Unit) :=
  match c.rom with
  | none => .quiet (.error .noRom) c
  | some rom => ({ c with rom := none }.load rom begin).map .ok

/-- ends a run and resets the machine, its memory included -/
def reset (c : Console) : Outcome Event Console Unit :=
  (c.stop.note (.log .resetting)).andThen fun _ c =>
    (c.onMachine Machine.reset).change fun c => { c with halted := none }

/-- changes the speed; a run is restarted at it -/
def setSpeed (c : Console) (speed : Float) : Outcome Event Console (Except ConsoleError Unit) :=
  match c.pace.withSpeed speed with
  | .error e => .quiet (.error (.pace e)) c
  | .ok pace =>
    let c := { c with pace }
    if c.running then (c.stop.andThen fun _ c => c.start).map .ok else .quiet (.ok ()) c

/-- hands out the halt report, once -/
def takeError (c : Console) : Outcome Event Console (Option CycleError) := .quiet c.halted { c with halted := none }

/-! ## By hand -/

/-- one cycle, whether running or not; a failure is no halt -/
def step (c : Console) : Outcome Event Console Report := c.onMachine Machine.cycle

def tick (c : Console) : Outcome Event Console Unit := c.onMachine Machine.tick

/-! ## Callbacks -/

/-- what a callback of the cpu task does -/
def cpuTurn (c : Console) : Outcome Event Console Flow :=
  if c.running then
    let o := c.step
    match o.value with
    | .ok _ => ⟨.proceed, o.state, o.events⟩
    | .error (.error e) =>
      ⟨.finish, { o.state with halted := some e, running := false }, o.events ++ [.log (.halting e)]⟩
    | .error .contract => ⟨.finish, o.state, o.events⟩
  else
    .quiet .finish c

/-- what a callback of the timer task does -/
def timerTurn (c : Console) : Outcome Event Console Flow :=
  if c.running then c.tick.map fun _ => .proceed else (c.onMachine Machine.silence).map fun _ => .finish

def turn (c : Console) : TaskName → Outcome Event Console Flow
  | .cpu => c.cpuTurn
  | .timer => c.timerTurn

def task (c : Console) : TaskName → Task
  | .cpu => c.cpu
  | .timer => c.timer

/-- a callback that broke off is gone -/
def dropCallback (c : Console) (name : TaskName) (which : Callback) : Console :=
  match name with
  | .cpu => { c with cpu := c.cpu.drop which }
  | .timer => { c with timer := c.timer.drop which }

/-- what a callback comes to when it is called -/
def called (c : Console) (name : TaskName) (which : Callback) : Outcome Event Console Flow :=
  let o := c.turn name
  match o.value with
  | .proceed => o
  | .finish => o.change (·.dropCallback name which)

/-- calls a callback of a task, if it has that one -/
def call (c : Console) (name : TaskName) (which : Callback) : Option (Outcome Event Console Flow) :=
  if (c.task name).has which then some (c.called name which) else none

/-- calls a callback at most `n` times, until it breaks off: what each call came to -/
def callTimes (name : TaskName) (which : Callback) : Nat → Console → Outcome Event Console (List Flow)
  | 0, c => .quiet [] c
  | n + 1, c =>
    match c.call name which with
    | none => .quiet [] c
    | some o =>
      match o.value with
      | .finish => o.map fun flow => [flow]
      | .proceed => o.andThen fun flow c => (callTimes name which n c).map (flow :: ·)

end Console

end ChipEight
