/-
What the calls of a host leave behind. A silence ends the tone, a tick sets the tone by the sound countdown and counts
both countdowns down, a reset and a load make the machine new and keep its keypad and random stream.
-/
import ChipEight.Machine.History
import Mathlib.Tactic

namespace ChipEight.Machine

theorem silence_eq (m : Machine) :
    m.silence = ⟨(), { m with beeping := false }, if m.beeping then [.log .toneOff, .stopBeep] else []⟩ := by
  cases hb : m.beeping with
  | false =>
    have hm : { m with beeping := false } = m := by rw [← hb]
    rw [silence, hb, hm]; rfl
  | true => rw [silence, hb]; rfl

theorem silence_state (m : Machine) : m.silence.state = { m with beeping := false } := by rw [silence_eq]

theorem tick_state (m : Machine) :
    m.tick.state = { m with beeping := m.sound.active, delay := m.delay.tick, sound := m.sound.tick } := by
  unfold tick sing silence
  cases hs : m.sound.active <;> cases hb : m.beeping <;> simp [Outcome.change, Outcome.quiet, hb]

/-- a reset is a new machine around the keypad and the random stream -/
theorem reset_state (m : Machine) : m.reset.state = { powerOn m.random with keypad := m.keypad } := by
  simp only [reset, Outcome.andThen, silence_state]
  rfl

theorem load_state (m : Machine) (rom : Rom) :
    (m.load rom).state =
      { powerOn m.random with
        keypad := m.keypad
        memory := Memory.initial.write Memory.programStart rom.data } := by
  simp only [load, Outcome.change, reset_state]
  rfl

/-! ## The same as actions -/

theorem perform_silence_state (m : Machine) : (m.perform .silence).state = { m with beeping := false } :=
  m.silence_state

theorem perform_tick_state (m : Machine) :
    (m.perform .tick).state =
      { m with beeping := m.sound.active, delay := m.delay.tick, sound := m.sound.tick } :=
  m.tick_state

theorem perform_reset_state (m : Machine) :
    (m.perform .reset).state = { powerOn m.random with keypad := m.keypad } :=
  m.reset_state

theorem perform_load_state (m : Machine) (rom : Rom) :
    (m.perform (.load rom)).state =
      { powerOn m.random with
        keypad := m.keypad
        memory := Memory.initial.write Memory.programStart rom.data } :=
  m.load_state rom

theorem perform_press_state (m : Machine) (key : UInt8) :
    (m.perform (.press key)).state = { m with keypad := if key < 16 then some key else m.keypad } := by
  simp only [perform, press, Keypad.press]
  split_ifs <;> rfl

end ChipEight.Machine
