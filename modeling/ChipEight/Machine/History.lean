/-
Histories of a machine: what a host does with it, in any order. A run collects what its cycles came to and all events;
`Reached` are the states that a machine can get into.

- `run_append`: a run goes on from the state that its first part reached.
-/
import ChipEight.Machine.Cycle

namespace ChipEight.Machine

/-- what a host does with a machine -/
inductive Action where
  | cycle
  | tick
  | silence
  | reset
  | load (rom : Rom)
  /-- no key is held if there is no such key -/
  | press (key : UInt8)
  | release (key : UInt8)
  | clearKeys
  | setRandom (random : RandomBytes)

/-- one action; the report of a cycle, none of the others -/
def perform (m : Machine) : Action → Outcome Event Machine (List Report)
  | .cycle => m.cycle.map fun r => [r]
  | .tick => m.tick.map fun _ => []
  | .silence => m.silence.map fun _ => []
  | .reset => m.reset.map fun _ => []
  | .load rom => (m.load rom).map fun _ => []
  | .press key =>
    match m.press key with
    | .ok m => .quiet [] m
    | .error _ => .quiet [] m
  | .release key => .quiet [] (m.release key)
  | .clearKeys => .quiet [] m.clearKeys
  | .setRandom random => .quiet [] (m.setRandom random)

/-- actions in turn: all reports, the last state, all events -/
def run (m : Machine) : List Action → Outcome Event Machine (List Report)
  | [] => .quiet [] m
  | a :: rest => (m.perform a).andThen fun reports m => (run m rest).map (reports ++ ·)

/-- the state after some actions -/
def after (m : Machine) (actions : List Action) : Machine := (m.run actions).state

/-- the states of a machine since it was made -/
def Reached (m : Machine) : Prop := ∃ random actions, m = (powerOn random).after actions

theorem run_append (m : Machine) (as bs : List Action) :
    m.run (as ++ bs) = (m.run as).andThen fun reports m => (m.run bs).map (reports ++ ·) := by
  induction as generalizing m with
  | nil => simp [run, Outcome.andThen, Outcome.map, Outcome.quiet]
  | cons a as ih => simp [run, ih, Outcome.andThen, Outcome.map]

theorem after_append (m : Machine) (as bs : List Action) : m.after (as ++ bs) = (m.after as).after bs := by
  simp [after, run_append, Outcome.andThen, Outcome.map]

end ChipEight.Machine
