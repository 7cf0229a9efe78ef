/-
What the calls of a console's owner come to: the state they leave and all that happens on the way, as one equation for
each. A stop ends the tone with the run; a load and a reset stop first, and so find no tone that could end once more; a
change of the speed stops and starts a run that is on, and otherwise only keeps the speed.

Results:
- `stop_eq`, `start_of_stopped`, `start_of_running`, `load_eq`, `reset_eq`: these calls;
- `reload_of_rom`, `setSpeed_of_invalid`, `setSpeed_of_stopped`, `setSpeed_of_running`: those that can be refused;
- `perform_call`, `called_events`: the call of a callback by its task;
- `start_keeps`, `turn_keeps`, `called_keeps`: no run changes the rom or the pace;
- `runAndDrop_eq`: the end of a console is one stop more.
-/
import ChipEight.Console.History
import ChipEight.Proofs.Machine.FreshStart

namespace ChipEight

namespace Task

theorem stop_stop (t : Task) : t.stop.stop = t.stop := by simp [stop]

end Task

namespace Console

/-- both tasks are told to stop -/
def stopNotes : List Event := [.task .cpu .stop, .task .timer .stop]

/-- both tasks are told to run at this pace -/
def startNotes (pace : Pace) : List Event :=
  [.task .cpu (.start pace.cpuInterval), .task .timer (.start pace.timerInterval)]

/-- the console without a run and without a tone -/
def stopped (c : Console) : Console :=
  { c with
    running := false
    machine := { c.machine with beeping := false }
    cpu := c.cpu.stop
    timer := c.timer.stop }

/-- the console with a run from now on, told apart from every run before -/
def started (c : Console) : Console :=
  { c with
    running := true
    halted := none
    cpu := c.cpu.stop.start c.pace.cpuInterval
    timer := c.timer.stop.start c.pace.timerInterval }

variable (c : Console)

theorem stop_eq :
    c.stop =
      ⟨(), c.stopped, stopNotes ++ c.machine.silence.events ++ if c.running then [.log .stopped] else []⟩ := by
  cases hr : c.running <;>
    simp [stop, hr, stopTasks, onMachine, Machine.silence_eq, Outcome.andThen, Outcome.note, stopped, stopNotes]

theorem start_of_running {c : Console} (h : c.running = true) : c.start = ⟨(), c, [.log .alreadyRunning]⟩ := by
  rw [start, if_pos h]

theorem start_of_stopped {c : Console} (h : c.running = false) :
    c.start = ⟨(), c.started, stopNotes ++ [.log (.starting c.pace.speed)] ++ startNotes c.pace⟩ := by
  rw [start, if_neg (by simp [h])]
  rfl

theorem after_stop_start : c.after [.stop, .start] = c.stopped.started := by
  have hstop : (c.perform .stop).state = c.stopped := congrArg Outcome.state c.stop_eq
  have hstart : (c.stopped.perform .start).state = c.stopped.started :=
    congrArg Outcome.state (start_of_stopped rfl)
  calc c.after [.stop, .start] = ((c.perform .stop).state.perform .start).state := rfl
    _ = c.stopped.started := by rw [hstop, hstart]

/-! ## Loads -/

/-- the console with a rom just loaded, before a start -/
def loaded (rom : Rom) : Console :=
  { c.stopped with machine := (c.machine.load rom).state, halted := none, rom := some rom }

theorem load_eq (rom : Rom) (begin : Bool) :
    c.load rom begin =
      ⟨(), ((c.loaded rom).startIf begin).state,
        c.stop.events ++ [.log (.loading rom.name rom.size), .clear] ++ ((c.loaded rom).startIf begin).events⟩ := by
  have hm : (c.stopped.machine.load rom).state = (c.machine.load rom).state := by
    rw [Machine.load_state, Machine.load_state]; rfl
  have he : (c.stopped.machine.load rom).events = [.clear] := by
    rw [Machine.load_events]; rfl
  simp only [load, stop_eq, Outcome.andThen, Outcome.note, Outcome.change, onMachine, hm, he, loaded,
    List.append_assoc, List.singleton_append]

theorem reset_eq :
    c.reset =
      ⟨(), { c.stopped with machine := c.machine.reset.state, halted := none },
        c.stop.events ++ [.log .resetting, .clear]⟩ := by
  have hm : c.stopped.machine.reset.state = c.machine.reset.state := by
    rw [Machine.reset_state, Machine.reset_state]; rfl
  have he : c.stopped.machine.reset.events = [.clear] := by
    rw [← Machine.load_empty, Machine.load_events]; rfl
  simp only [reset, stop_eq, Outcome.andThen, Outcome.note, Outcome.change, onMachine, hm, he, List.append_assoc,
    List.singleton_append]

theorem reload_of_rom {c : Console} {rom : Rom} (h : c.rom = some rom) (begin : Bool) :
    c.reload begin = (c.load rom begin).map .ok := by
  have htake : ({ c with rom := none } : Console).load rom begin = c.load rom begin := by
    rw [load_eq, load_eq, stop_eq, stop_eq]; rfl
  simp only [reload, h, htake]

theorem reload_of_none {c : Console} (h : c.rom = none) (begin : Bool) :
    c.reload begin = .quiet (.error .noRom) c := by
  simp only [reload, h]

/-- a task without a callback calls none -/
theorem perform_call (name : TaskName) :
    c.perform (.call name) =
      if (c.task name).has .current then (c.called name .current).map .flow else .quiet .nothing c := by
  simp only [perform, call]
  split_ifs <;> rfl

theorem called_events (name : TaskName) (which : Callback) :
    (c.called name which).events = (c.turn name).events := by
  simp only [called]
  split <;> rfl

theorem start_keeps : c.start.state.rom = c.rom ∧ c.start.state.pace = c.pace := by
  unfold start
  split <;> exact ⟨rfl, rfl⟩

theorem turn_keeps (name : TaskName) : (c.turn name).state.rom = c.rom ∧ (c.turn name).state.pace = c.pace := by
  cases name with
  | cpu =>
    show c.cpuTurn.state.rom = c.rom ∧ c.cpuTurn.state.pace = c.pace
    unfold cpuTurn
    split
    · dsimp only
      split <;> exact ⟨rfl, rfl⟩
    · exact ⟨rfl, rfl⟩
  | timer =>
    show c.timerTurn.state.rom = c.rom ∧ c.timerTurn.state.pace = c.pace
    unfold timerTurn
    split <;> exact ⟨rfl, rfl⟩

theorem called_keeps (name : TaskName) (which : Callback) :
    (c.called name which).state.rom = c.rom ∧ (c.called name which).state.pace = c.pace := by
  rw [← (c.turn_keeps name).1, ← (c.turn_keeps name).2]
  simp only [called]
  split
  · exact ⟨rfl, rfl⟩
  · cases name <;> exact ⟨rfl, rfl⟩

/-- the drop of a console is one stop more -/
theorem runAndDrop_eq (actions : List Action) :
    (c.runAndDrop actions).state = c.after (actions ++ [.stop]) ∧
      (c.runAndDrop actions).events = (c.run (actions ++ [.stop])).events := by
  simp [runAndDrop, after, run_append, run, perform, Outcome.andThen, Outcome.map, Outcome.quiet]

/-! ## The speed -/

/-- the console at another speed -/
def atSpeed (speed : Float) : Console := { c with pace := { c.pace with speed } }

variable {c} {speed : Float}

theorem setSpeed_of_invalid (h : Pace.isSpeed speed = false) :
    c.setSpeed speed = .quiet (.error (.pace (.invalidSpeed speed))) c := by
  simp only [setSpeed, Pace.withSpeed, h]
  rfl

theorem setSpeed_of_stopped (h : Pace.isSpeed speed = true) (hr : c.running = false) :
    c.setSpeed speed = .quiet (.ok ()) (c.atSpeed speed) := by
  simp only [setSpeed, Pace.withSpeed, h, if_true]
  exact if_neg (by simp [hr])

theorem setSpeed_of_running (h : Pace.isSpeed speed = true) (hr : c.running = true) :
    c.setSpeed speed =
      ⟨.ok (), (c.atSpeed speed).stopped.started,
        c.stop.events ++ (stopNotes ++ [.log (.starting speed)] ++ startNotes (c.atSpeed speed).pace)⟩ := by
  have hc : c.setSpeed speed = ((c.atSpeed speed).stop.andThen fun _ c => c.start).map .ok := by
    simp only [setSpeed, Pace.withSpeed, h, if_true]
    exact if_pos hr
  have hs : (c.atSpeed speed).stop = ⟨(), (c.atSpeed speed).stopped, c.stop.events⟩ := by
    rw [stop_eq, stop_eq]; rfl
  have ht : (c.atSpeed speed).stopped.running = false := rfl
  rw [hc, hs, Outcome.andThen, start_of_stopped ht]
  rfl

end Console

end ChipEight
