/-
A fair schedule of the two tasks: a cycle and a timer tick in turn, until the run halts. A program whose course does
not depend on the pace ends the same way under every other schedule.
-/
import ChipEight.Console

namespace ChipEight.Console

/-- presses a key if one is awaited -/
def answerWait (c : Console) (key : Option UInt8) : Except KeyError Console :=
  match c.machine.awaiting, key with
  | some _, some key =>
    match c.machine.press key with
    | .ok machine => .ok { c with machine }
    | .error e => .error e
  | _, _ => .ok c

/-- a call of a current callback, nothing if there is none -/
def callCurrent (c : Console) (name : TaskName) : Outcome Event Console Flow :=
  (c.call name .current).getD (.quiet .finish c)

/-- a turn of the cpu task and one of the timer task -/
def round (c : Console) : Outcome Event Console Flow :=
  (c.callCurrent .cpu).andThen fun _ c => c.callCurrent .timer

/-- Rounds until the run ends or the key that answers a wait is refused, at most `fuel`; `past` holds the events so
far, the newest first. -/
def runRounds (key : Option UInt8) : (fuel : Nat) → Console → (past : List Event) →
    Outcome Event Console (Except KeyError Unit)
  | 0, c, past => ⟨.ok (), c, past.reverse⟩
  | fuel + 1, c, past =>
    if c.running then
      match c.answerWait key with
      | .error e => ⟨.error e, c, past.reverse⟩
      | .ok c =>
        let o := c.round
        runRounds key fuel o.state (o.events.reverse ++ past)
    else ⟨.ok (), c, past.reverse⟩

/-- starts a run and lets it halt -/
def runToHalt (c : Console) (key : Option UInt8) (fuel : Nat) : Outcome Event Console (Except KeyError Unit) :=
  c.start.andThen fun _ c => runRounds key fuel c []

end ChipEight.Console
