/-
Histories of a console: calls of its owner, calls of its callbacks, of the current and of earlier starts, and what the
player does at the keypad, in any order and each as a whole. How many callbacks of earlier starts are still around is
left open: each does what the current one does, and no task knows of it.

`Reached` are the states that a console can get into. Its owner can also take the machine in hand between two calls.

- `run_append`: a run goes on from the state that its first part reached.
-/
import ChipEight.Console
import ChipEight.Machine.History

namespace ChipEight.Console

inductive Action where
  | load (rom : Rom) (begin : Bool)
  | reload (begin : Bool)
  | reset
  | start
  | stop
  | setSpeed (speed : Float)
  | step
  | tick
  | takeError
  /-- a task calls its current callback, if it has one -/
  | call (name : TaskName)
  /-- a callback of an earlier start is called -/
  | stray (name : TaskName)
  /-- the player holds another key, or none -/
  | hold (key : Option (Fin 16))

/-- what an action hands back -/
inductive Reply where
  | nothing
  | refused (cause : ConsoleError)
  | report (result : Report)
  | taken (error : Option CycleError)
  | flow (flow : Flow)

/-- a fallible action's reply -/
def Reply.ofExcept : Except ConsoleError Unit → Reply
  | .ok _ => .nothing
  | .error e => .refused e

def perform (c : Console) : Action → Outcome Event Console Reply
  | .load rom begin => (c.load rom begin).map fun _ => .nothing
  | .reload begin => (c.reload begin).map Reply.ofExcept
  | .reset => c.reset.map fun _ => .nothing
  | .start => c.start.map fun _ => .nothing
  | .stop => c.stop.map fun _ => .nothing
  | .setSpeed speed => (c.setSpeed speed).map Reply.ofExcept
  | .step => c.step.map .report
  | .tick => c.tick.map fun _ => .nothing
  | .takeError => c.takeError.map .taken
  | .call name =>
    match c.call name .current with
    | some o => o.map .flow
    | none => .quiet .nothing c
  | .stray name => (c.turn name).map .flow
  | .hold key => .quiet .nothing { c with machine := { c.machine with keypad := key.map fun k => .ofNat k } }

/-- actions in turn: all replies, the last state, all events -/
def run (c : Console) : List Action → Outcome Event Console (List Reply)
  | [] => .quiet [] c
  | a :: rest => (c.perform a).andThen fun reply c => (run c rest).map (reply :: ·)

/-- a history that ends with the console dropped, which stops it -/
def runAndDrop (c : Console) (actions : List Action) : Outcome Event Console (List Reply) :=
  (c.run actions).andThen fun replies c => c.stop.map fun _ => replies

/-- the state after some actions -/
def after (c : Console) (actions : List Action) : Console := (c.run actions).state

/-- the states of a console since it was made -/
inductive Reached : Console → Prop where
  | powerOn (pace : Pace) (random : RandomBytes) : Reached (powerOn pace random)
  | perform {c : Console} (h : Reached c) (a : Action) : Reached (c.perform a).state
  /-- a callback is called, also one that no task knows of -/
  | called {c : Console} (h : Reached c) (name : TaskName) (which : Callback) : Reached (c.called name which).state
  /-- the machine is in the hands of its owner -/
  | host {c : Console} (h : Reached c) (a : Machine.Action) :
    Reached { c with machine := (c.machine.perform a).state }

theorem run_append (c : Console) (as bs : List Action) :
    c.run (as ++ bs) = (c.run as).andThen fun replies c => (c.run bs).map (replies ++ ·) := by
  induction as generalizing c with
  | nil => simp [run, Outcome.andThen, Outcome.map, Outcome.quiet]
  | cons a as ih => simp [run, ih, Outcome.andThen, Outcome.map]

theorem after_append (c : Console) (as bs : List Action) : c.after (as ++ bs) = (c.after as).after bs := by
  simp [after, run_append, Outcome.andThen, Outcome.map]

end ChipEight.Console
