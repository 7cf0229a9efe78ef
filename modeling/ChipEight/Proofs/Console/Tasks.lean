/-
The two tasks and the pace. While a run is on, both tasks hold a callback, and it runs at the interval that the pace of
the console has for it just then. A stop, and everything that stops, leaves none of them.

What could break this is a callback that breaks off, a halt, or a change of the speed. A callback breaks off only
without a run, or when it halts one, since no cycle of a console leaves its contract; and a change of the speed restarts
the tasks of a run.

Results:
- `turn_goesOn`: a turn that leaves a run on did not break off, and touched no task;
- `staffed_perform`, `staffed_called`: what holds while a run is on is kept by every action and by every callback;
- `proper_reachedFrom`: the pace is always one there is;
- `tasks_match_pace`: all of it for every state of a console, with what a change of the speed comes to.
-/
import ChipEight.Proofs.Console.HaltReport
import ChipEight.Proofs.Console.Lifecycle
import ChipEight.Proofs.Console.Reached
import ChipEight.Proofs.Machine.Safety
import ChipEight.Proofs.Pace

namespace ChipEight.Console

/-- the states that a console gets into from `c₀` on -/
inductive ReachedFrom (c₀ : Console) : Console → Prop where
  | refl : ReachedFrom c₀ c₀
  | perform {c : Console} (h : ReachedFrom c₀ c) (a : Action) : ReachedFrom c₀ (c.perform a).state
  /-- a callback is called, also one that no task knows of -/
  | called {c : Console} (h : ReachedFrom c₀ c) (name : TaskName) (which : Callback) :
    ReachedFrom c₀ (c.called name which).state
  /-- the machine is in the hands of its owner -/
  | host {c : Console} (h : ReachedFrom c₀ c) (a : Machine.Action) :
    ReachedFrom c₀ { c with machine := (c.machine.perform a).state }

/-- both tasks run at the pace of the console, and there is nothing to report -/
structure Staffed (c : Console) : Prop where
  cpu : c.cpu.live = some c.pace.cpuInterval
  timer : c.timer.live = some c.pace.timerInterval
  halted : c.halted = none

/-- no task holds a callback -/
def Unstaffed (c : Console) : Prop := c.cpu.live = none ∧ c.timer.live = none

variable {c c₀ : Console}

theorem ReachedFrom.reached (h : c₀.ReachedFrom c) (h₀ : c₀.Reached) : c.Reached := by
  induction h with
  | refl => exact h₀
  | perform _ a ih => exact ih.perform a
  | called _ name which ih => exact ih.called name which
  | host _ a ih => exact ih.host a

theorem ReachedFrom.after (h : c₀.ReachedFrom c) (actions : List Action) : c₀.ReachedFrom (c.after actions) := by
  induction actions generalizing c with
  | nil => exact h
  | cons a rest ih => exact ih (h.perform a)

/-! ## Operations -/

theorem staffed_started (c : Console) : c.started.Staffed := ⟨rfl, rfl, rfl⟩

theorem unstaffed_stopped (c : Console) : c.stopped.Unstaffed := ⟨rfl, rfl⟩

theorem staffed_start (h : c.running = true → c.Staffed) : c.start.state.Staffed := by
  cases hr : c.running with
  | true => rw [start_of_running hr]; exact h hr
  | false => rw [start_of_stopped hr]; exact c.staffed_started

theorem staffed_load (c : Console) (rom : Rom) (begin : Bool) (hr : (c.load rom begin).state.running = true) :
    (c.load rom begin).state.Staffed := by
  rw [load_eq] at hr ⊢
  cases begin with
  | false => cases hr
  | true => exact staffed_start (c := c.loaded rom) (fun hl => (by cases hl))

theorem unstaffed_load (c : Console) (rom : Rom) : (c.load rom false).state.Unstaffed := by
  rw [load_eq]
  exact c.unstaffed_stopped

theorem unstaffed_reload (c : Console) (h : (c.perform (.reload false)).value = .nothing) :
    (c.perform (.reload false)).state.Unstaffed := by
  cases hr : c.rom with
  | none =>
    have hv : (c.perform (.reload false)).value = .refused .noRom := by
      simp only [perform, reload_of_none hr]; rfl
    rw [hv] at h
    cases h
  | some rom =>
    simp only [perform, reload_of_rom hr]
    exact c.unstaffed_load rom

theorem staffed_setSpeed (h : c.running = true → c.Staffed) (speed : Float)
    (hr : (c.setSpeed speed).state.running = true) : (c.setSpeed speed).state.Staffed := by
  cases hv : Pace.isSpeed speed with
  | false =>
    rw [setSpeed_of_invalid hv] at hr ⊢
    exact h hr
  | true =>
    cases hc : c.running with
    | false =>
      rw [setSpeed_of_stopped hv hc] at hr
      have hr : c.running = true := hr
      rw [hc] at hr
      cases hr
    | true =>
      rw [setSpeed_of_running hv hc]
      exact staffed_started _

/-! ## Callbacks -/

/-- a turn that leaves a run on -/
structure GoesOn (c : Console) (o : Outcome Event Console Flow) : Prop where
  running : c.running = true
  value : o.value = .proceed
  cpu : o.state.cpu = c.cpu
  timer : o.state.timer = c.timer
  pace : o.state.pace = c.pace
  halted : o.state.halted = c.halted

theorem turn_goesOn (hs : c.machine.Sound) {name : TaskName} (hr : (c.turn name).state.running = true) :
    c.GoesOn (c.turn name) := by
  have hc : c.running = true := by
    cases hc : c.running with
    | true => rfl
    | false =>
      rcases c.turn_flags name with ⟨e, -, hc', -⟩ | ⟨-, -, hn⟩
      · rw [hc] at hc'; cases hc'
      · rw [hn, hc] at hr; cases hr
  cases name with
  | timer =>
    have ht : c.turn .timer = c.tick.map fun _ => .proceed := by simp only [turn, timerTurn, hc, if_true]
    rw [ht]
    exact ⟨hc, rfl, rfl, rfl, rfl, rfl⟩
  | cpu =>
    have hv : c.step.value = c.machine.cycle.value := rfl
    have hcontract := hs.cycle_ne_contract
    simp only [turn, cpuTurn, hc, if_true, hv] at hr ⊢
    cases hm : c.machine.cycle.value with
    | ok op => exact ⟨hc, rfl, rfl, rfl, rfl, rfl⟩
    | error f =>
      cases f with
      | contract => exact absurd hm hcontract
      | error e => simp [hm] at hr

theorem GoesOn.staffed {o : Outcome Event Console Flow} (h : c.GoesOn o) (hs : c.Staffed) : o.state.Staffed where
  cpu := by rw [h.cpu, h.pace]; exact hs.cpu
  timer := by rw [h.timer, h.pace]; exact hs.timer
  halted := h.halted.trans hs.halted

theorem staffed_turn (hm : c.machine.Sound) (h : c.running = true → c.Staffed) {name : TaskName}
    (hr : (c.turn name).state.running = true) : (c.turn name).state.Staffed := by
  have hg := turn_goesOn hm hr
  exact hg.staffed (h hg.running)

theorem staffed_called (hm : c.machine.Sound) (h : c.running = true → c.Staffed) {name : TaskName}
    {which : Callback} (hr : (c.called name which).state.running = true) : (c.called name which).state.Staffed := by
  rw [(c.called_flags name which).2] at hr
  have hc : c.called name which = c.turn name := by
    simp only [called, (turn_goesOn hm hr).value]
  rw [hc]
  exact staffed_turn hm h hr

/-! ## Histories -/

theorem staffed_perform (hm : c.machine.Sound) (h : c.running = true → c.Staffed) {a : Action}
    (hr : (c.perform a).state.running = true) : (c.perform a).state.Staffed := by
  cases a with
  | load rom begin => exact c.staffed_load rom begin hr
  | reload begin =>
    cases hrom : c.rom with
    | none =>
      simp only [perform, reload_of_none hrom] at hr ⊢
      exact h hr
    | some rom =>
      simp only [perform, reload_of_rom hrom] at hr ⊢
      exact c.staffed_load rom begin hr
  | reset =>
    have hr : c.reset.state.running = true := hr
    rw [reset_eq] at hr
    cases hr
  | start => exact staffed_start h
  | stop =>
    have hr : c.stop.state.running = true := hr
    rw [stop_eq] at hr
    cases hr
  | setSpeed speed => exact staffed_setSpeed h speed hr
  | takeError => exact { h hr with halted := rfl }
  | call name =>
    rw [perform_call] at hr ⊢
    split_ifs at hr ⊢
    · exact staffed_called hm h hr
    · exact h hr
  | stray name => exact staffed_turn hm h hr
  | step | tick | hold _ => exact ⟨(h hr).cpu, (h hr).timer, (h hr).halted⟩

theorem staffed_reachedFrom (h₀ : c₀.Reached) (hs : c₀.running = true → c₀.Staffed) (h : c₀.ReachedFrom c) :
    c.running = true → c.Staffed := by
  induction h with
  | refl => exact hs
  | perform h a ih => exact staffed_perform (h.reached h₀).sound ih
  | called h name which ih => exact staffed_called (h.reached h₀).sound ih
  | host h a ih =>
    intro hr
    exact ⟨(ih hr).cpu, (ih hr).timer, (ih hr).halted⟩

/-! ## The pace -/

theorem load_pace (c : Console) (rom : Rom) (begin : Bool) : (c.load rom begin).state.pace = c.pace := by
  rw [load_eq]
  cases begin with
  | false => rfl
  | true => exact (c.loaded rom).start_keeps.2

theorem proper_setSpeed (h : c.pace.Proper) (speed : Float) : (c.setSpeed speed).state.pace.Proper := by
  cases hv : Pace.isSpeed speed with
  | false => rw [setSpeed_of_invalid hv]; exact h
  | true =>
    cases hr : c.running with
    | false => rw [setSpeed_of_stopped hv hr]; exact h.atSpeed hv
    | true => rw [setSpeed_of_running hv hr]; exact h.atSpeed hv

theorem proper_perform (h : c.pace.Proper) (a : Action) : (c.perform a).state.pace.Proper := by
  cases a with
  | load rom begin =>
    show (c.load rom begin).state.pace.Proper
    rw [load_pace]; exact h
  | reload begin =>
    cases hr : c.rom with
    | none => simp only [perform, reload_of_none hr]; exact h
    | some rom =>
      simp only [perform, reload_of_rom hr]
      show (c.load rom begin).state.pace.Proper
      rw [load_pace]; exact h
  | start =>
    show c.start.state.pace.Proper
    rw [c.start_keeps.2]; exact h
  | stop =>
    show c.stop.state.pace.Proper
    rw [stop_eq]; exact h
  | reset =>
    show c.reset.state.pace.Proper
    rw [reset_eq]; exact h
  | setSpeed speed => exact proper_setSpeed h speed
  | call name =>
    rw [perform_call]
    split_ifs
    · show (c.called name .current).state.pace.Proper
      rw [(c.called_keeps name .current).2]; exact h
    · exact h
  | stray name =>
    show (c.turn name).state.pace.Proper
    rw [(c.turn_keeps name).2]; exact h
  | step | tick | takeError | hold _ => exact h

theorem proper_reachedFrom (h₀ : c₀.pace.Proper) (h : c₀.ReachedFrom c) : c.pace.Proper := by
  induction h with
  | refl => exact h₀
  | perform _ a ih => exact proper_perform ih a
  | called _ name which ih => rw [(called_keeps _ name which).2]; exact ih
  | host _ a ih => exact ih

/-! ## Changes of the speed -/

theorem perform_setSpeed_of_invalid {speed : Float} (h : speed.isNaN = true ∨ speed.isInf = true ∨ speed ≤ 0) :
    c.perform (.setSpeed speed) = ⟨.refused (.pace (.invalidSpeed speed)), c, []⟩ := by
  rw [perform, setSpeed_of_invalid ((Pace.isSpeed_eq_false_iff speed).2 h)]
  rfl

theorem perform_setSpeed_of_running {speed : Float} (hv : Pace.isSpeed speed = true) (hr : c.running = true)
    (hs : c.Staffed) :
    c.perform (.setSpeed speed) =
      ⟨.nothing,
        { c.atSpeed speed with
          machine := { c.machine with beeping := false }
          cpu := ⟨some (c.atSpeed speed).pace.cpuInterval, true⟩
          timer := ⟨some (c.atSpeed speed).pace.timerInterval, true⟩ },
        stopNotes ++ c.machine.silence.events ++ [.log .stopped] ++
          (stopNotes ++ [.log (.starting speed)] ++ startNotes (c.atSpeed speed).pace)⟩ := by
  have hcpu : c.cpu.stop.stop = ⟨none, true⟩ := by rw [Task.stop_stop, Task.stop, hs.cpu]; simp
  have htimer : c.timer.stop.stop = ⟨none, true⟩ := by rw [Task.stop_stop, Task.stop, hs.timer]; simp
  have hstate : (c.atSpeed speed).stopped.started =
      { c.atSpeed speed with
        machine := { c.machine with beeping := false }
        cpu := ⟨some (c.atSpeed speed).pace.cpuInterval, true⟩
        timer := ⟨some (c.atSpeed speed).pace.timerInterval, true⟩ } := by
    simp only [started, stopped, atSpeed, hcpu, htimer, Task.start, hr, hs.halted]
  rw [perform, setSpeed_of_running hv hr, hstate, stop_eq, if_pos hr]
  rfl

/-- **The tasks of a run match the pace.** Take a console with a pace there is, in any state it gets into.

- While a run is on, both tasks hold a callback, at the interval that the pace has for it now.
- Right after a stop, a load or reload without a start, or a reset, neither task holds one.
- The speed is always positive and finite, and both rates at least one.
- What is no number, infinite, zero or negative is refused as a speed; nothing changes then and no task is told
  anything.
- Every other speed is taken. Without a run nothing else changes and no task is told anything; with one, both tasks are
  stopped and started again, at the intervals of the new pace, and a tone ends. -/
theorem tasks_match_pace {pace : Pace} (hp : pace.Made) (random : RandomBytes) {c : Console}
    (h : (powerOn pace random).ReachedFrom c) :
    (c.running = true → c.cpu.live = some c.pace.cpuInterval ∧ c.timer.live = some c.pace.timerInterval) ∧
    ((c.perform .stop).state.Unstaffed ∧ (∀ rom, (c.perform (.load rom false)).state.Unstaffed) ∧
      ((c.perform (.reload false)).value = .nothing → (c.perform (.reload false)).state.Unstaffed) ∧
      (c.perform .reset).state.Unstaffed) ∧
    (c.pace.speed.isFinite = true ∧ 0 < c.pace.speed ∧ 1 ≤ c.pace.cpuRate ∧ 1 ≤ c.pace.timerRate) ∧
    (∀ speed : Float, speed.isNaN = true ∨ speed.isInf = true ∨ speed ≤ 0 →
      c.perform (.setSpeed speed) = ⟨.refused (.pace (.invalidSpeed speed)), c, []⟩) ∧
    ∀ speed : Float, ¬ (speed.isNaN = true ∨ speed.isInf = true ∨ speed ≤ 0) →
      let p : Pace := { c.pace with speed }
      (c.running = false → c.perform (.setSpeed speed) = ⟨.nothing, { c with pace := p }, []⟩) ∧
      (c.running = true → c.perform (.setSpeed speed) =
        ⟨.nothing,
          { c with
            pace := p
            machine := { c.machine with beeping := false }
            cpu := ⟨some p.cpuInterval, true⟩
            timer := ⟨some p.timerInterval, true⟩ },
          stopNotes ++ (if c.machine.beeping then [.log .toneOff, .stopBeep] else []) ++ [.log .stopped] ++
            (stopNotes ++ [.log (.starting speed)] ++ startNotes p)⟩) := by
  have hs : c.running = true → c.Staffed := staffed_reachedFrom (.powerOn pace random) (fun hr => by cases hr) h
  have hpower : (powerOn pace random).pace.Proper := hp.proper
  have hpace := proper_reachedFrom hpower h
  refine ⟨fun hr => ⟨(hs hr).cpu, (hs hr).timer⟩, ⟨?_, c.unstaffed_load, c.unstaffed_reload, ?_⟩,
    ⟨hpace.finite, hpace.positive, hpace.cpuRate, hpace.timerRate⟩, fun speed => perform_setSpeed_of_invalid,
    fun speed hv => ⟨fun hr => ?_, fun hr => ?_⟩⟩
  · show c.stop.state.Unstaffed
    rw [stop_eq]
    exact c.unstaffed_stopped
  · show c.reset.state.Unstaffed
    rw [reset_eq]
    exact c.unstaffed_stopped
  · have hv : Pace.isSpeed speed = true := by
      rw [← Pace.isSpeed_eq_false_iff, Bool.not_eq_false] at hv
      exact hv
    rw [perform, setSpeed_of_stopped hv hr]
    rfl
  · have hv : Pace.isSpeed speed = true := by
      rw [← Pace.isSpeed_eq_false_iff, Bool.not_eq_false] at hv
      exact hv
    rw [perform_setSpeed_of_running hv hr (hs hr), Machine.silence_eq]
    rfl

/-- a tone of nine ticks, and from then on nothing -/
def longTone : Rom := ⟨"", [0x60, 0x09, 0xF0, 0x18, 0x12, 0x04], by decide⟩

/-- the speed is halved while the tone is on -/
theorem longTone_retuned :
    let c := (powerOn .standard (.ofScript #[])).after [.load longTone true, .call .cpu, .call .cpu, .call .timer]
    let n := (c.perform (.setSpeed 0.5)).state
    c.running = true ∧ c.machine.beeping = true ∧ c.cpu.live = some c.pace.cpuInterval ∧
      n.machine.beeping = false ∧ n.running = true ∧
      n.cpu.live = some (Pace.cpuInterval { c.pace with speed := 0.5 }) := by
  intro c n
  have hc : (powerOn .standard (.ofScript #[])).ReachedFrom c := ReachedFrom.refl.after _
  obtain ⟨hlive, -, -, -, hset⟩ := tasks_match_pace .standard (.ofScript #[]) hc
  have hnow : c.running = true ∧ c.machine.beeping = true := by decide +kernel
  obtain ⟨hr, hb⟩ := hnow
  have hn := (hset 0.5 (by decide)).2 hr
  -- which run it was is settled by now
  clear_value c
  refine ⟨hr, hb, (hlive hr).1, ?_, ?_, ?_⟩
  · exact congrArg (fun o => o.state.machine.beeping) hn
  · exact (congrArg (fun o => o.state.running) hn).trans hr
  · exact congrArg (fun o => o.state.cpu.live) hn

end ChipEight.Console
