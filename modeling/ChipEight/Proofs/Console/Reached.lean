/-
The machine of a console. All that a console does with its machine is what a host can do with one, so the machine of a
console gets into no state that a machine does not get into by itself.

Results:
- `stop_machine`, `start_machine`, `load_machine`, `reset_machine`, `setSpeed_machine`, `cpuTurn_machine`,
  `timerTurn_machine`: what each operation does with the machine;
- `Reached.machine`: the machine of a reached console is reached, and so it is `Sound`.
-/
import ChipEight.Console.History
import ChipEight.Proofs.Machine.Invariant

namespace ChipEight

theorem Machine.Reached.perform {m : Machine} (h : m.Reached) (a : Action) : (m.perform a).state.Reached := by
  obtain ⟨random, actions, rfl⟩ := h
  refine ⟨random, actions ++ [a], ?_⟩
  rw [after_append]
  rfl

namespace Console

/-! ## Operations -/

theorem stop_machine (c : Console) : c.stop.state.machine = c.machine.silence.state := by
  unfold stop
  split_ifs <;> rfl

theorem start_machine (c : Console) : c.start.state.machine = c.machine := by
  unfold start
  split_ifs <;> rfl

theorem startIf_machine (c : Console) (begin : Bool) : (c.startIf begin).state.machine = c.machine := by
  unfold startIf
  split_ifs
  · exact c.start_machine
  · rfl

theorem load_machine (c : Console) (rom : Rom) (begin : Bool) :
    (c.load rom begin).state.machine = (c.machine.silence.state.load rom).state := by
  have hs := c.stop_machine
  simp only [load, Outcome.andThen, Outcome.note, Outcome.change, onMachine, startIf_machine, hs]

theorem reset_machine (c : Console) : c.reset.state.machine = c.machine.silence.state.reset.state := by
  have hs := c.stop_machine
  simp only [reset, Outcome.andThen, Outcome.note, Outcome.change, onMachine, hs]

theorem reload_machine (c : Console) (begin : Bool) :
    (c.reload begin).state.machine = c.machine ∨
      ∃ rom, (c.reload begin).state.machine = (c.machine.silence.state.load rom).state := by
  unfold reload
  split
  · exact .inl rfl
  · rename_i rom _
    exact .inr ⟨rom, load_machine { c with rom := none } rom begin⟩

theorem setSpeed_machine (c : Console) (speed : Float) :
    (c.setSpeed speed).state.machine = c.machine ∨ (c.setSpeed speed).state.machine = c.machine.silence.state := by
  unfold setSpeed
  split
  · exact .inl rfl
  · rename_i pace _
    by_cases hr : c.running = true
    · right
      simp only [hr, if_true, Outcome.map, Outcome.andThen, start_machine, stop_machine]
    · left
      simp only [hr, Outcome.quiet]; rfl

/-! ## Callbacks -/

theorem cpuTurn_machine (c : Console) :
    c.cpuTurn.state.machine = if c.running then c.machine.cycle.state else c.machine := by
  unfold cpuTurn
  split_ifs
  · simp only; split <;> rfl
  · rfl

theorem timerTurn_machine (c : Console) :
    c.timerTurn.state.machine = if c.running then c.machine.tick.state else c.machine.silence.state := by
  unfold timerTurn
  split_ifs <;> rfl

theorem dropCallback_machine (c : Console) (name : TaskName) (which : Callback) :
    (c.dropCallback name which).machine = c.machine := by
  cases name <;> rfl

theorem called_machine (c : Console) (name : TaskName) (which : Callback) :
    (c.called name which).state.machine = (c.turn name).state.machine := by
  simp only [called]
  split
  · rfl
  · exact dropCallback_machine ..

theorem turn_reached {c : Console} (h : c.machine.Reached) (name : TaskName) :
    (c.turn name).state.machine.Reached := by
  cases name with
  | cpu =>
    show c.cpuTurn.state.machine.Reached
    rw [cpuTurn_machine]
    split_ifs
    · exact h.perform .cycle
    · exact h
  | timer =>
    show c.timerTurn.state.machine.Reached
    rw [timerTurn_machine]
    split_ifs
    · exact h.perform .tick
    · exact h.perform .silence

/-! ## Histories -/

/-- the keys a player has are those that a keypad takes -/
theorem ofNat_key_lt (k : Fin 16) : UInt8.ofNat k < 16 := by
  revert k; decide

theorem perform_reached {c : Console} (h : c.machine.Reached) (a : Action) :
    (c.perform a).state.machine.Reached := by
  cases a with
  | load rom begin =>
    show (c.load rom begin).state.machine.Reached
    rw [load_machine]
    exact (h.perform .silence).perform (.load rom)
  | reload begin =>
    show (c.reload begin).state.machine.Reached
    rcases c.reload_machine begin with hm | ⟨rom, hm⟩
    · rw [hm]; exact h
    · rw [hm]; exact (h.perform .silence).perform (.load rom)
  | reset =>
    show c.reset.state.machine.Reached
    rw [reset_machine]
    exact (h.perform .silence).perform .reset
  | start =>
    show c.start.state.machine.Reached
    rw [start_machine]
    exact h
  | stop =>
    show c.stop.state.machine.Reached
    rw [stop_machine]
    exact h.perform .silence
  | setSpeed speed =>
    show (c.setSpeed speed).state.machine.Reached
    rcases c.setSpeed_machine speed with hm | hm
    · rw [hm]; exact h
    · rw [hm]; exact h.perform .silence
  | step => exact h.perform .cycle
  | tick => exact h.perform .tick
  | takeError => exact h
  | call name =>
    simp only [perform, call]
    split
    · rename_i o ho
      split_ifs at ho
      cases ho
      show (c.called name .current).state.machine.Reached
      rw [called_machine]
      exact turn_reached h name
    · exact h
  | stray name => exact turn_reached h name
  | hold key =>
    cases key with
    | none => exact h.perform .clearKeys
    | some k =>
      have hk : c.machine.press (.ofNat k) = .ok { c.machine with keypad := some (.ofNat k) } := by
        rw [Machine.press, Keypad.press, if_pos (ofNat_key_lt k)]
      have hp := h.perform (.press (.ofNat k))
      rw [Machine.perform, hk] at hp
      exact hp

theorem Reached.after {c : Console} (h : c.Reached) (actions : List Action) : (c.after actions).Reached := by
  induction actions generalizing c with
  | nil => exact h
  | cons a actions ih => exact ih (h.perform a)

theorem Reached.machine {c : Console} (h : c.Reached) : c.machine.Reached := by
  induction h with
  | powerOn pace random => exact ⟨random, [], rfl⟩
  | perform _ a ih => exact perform_reached ih a
  | called _ name which ih =>
    rw [called_machine]
    exact turn_reached ih name
  | host _ a ih => exact ih.perform a

theorem Reached.sound {c : Console} (h : c.Reached) : c.machine.Sound := Machine.sound_reached h.machine

end Console

end ChipEight
