/-
A machine whose program stands still. Between two cycles, and in cycles that change nothing, a host moves the
countdowns, the tone, the keypad and the stream at most; the registers, the memory, the program counter, the stack and
the screen stay as they are until a reset or a load.

Results:
- `stalled_perform`: one action;
- `stalled_trace`: a run whose cycles leave the machine alone, wherever the program stands still up to them;
- `stalled_of_no_cycle`: a run without a cycle.
-/
import ChipEight.Proofs.Machine.Nesting
import ChipEight.Proofs.Machine.Trace

namespace ChipEight.Machine

/-- the program stands still: all that moves are the countdowns, the tone, the keypad and the stream -/
def Stalled (m n : Machine) : Prop :=
  n = { m with delay := n.delay, sound := n.sound, beeping := n.beeping, keypad := n.keypad, random := n.random }

variable {m n : Machine} {actions : List Action}

theorem Stalled.refl (m : Machine) : m.Stalled m := rfl

theorem Stalled.trans {p : Machine} (h : m.Stalled n) (h' : n.Stalled p) : m.Stalled p := by
  unfold Stalled at h h' ⊢
  rw [h', h]

theorem Stalled.awaiting (h : m.Stalled n) : n.awaiting = m.awaiting := by rw [h]

theorem Stalled.registers (h : m.Stalled n) : n.registers = m.registers := by rw [h]

theorem Stalled.pc (h : m.Stalled n) : n.pc = m.pc := by rw [h]

theorem Stalled.memory (h : m.Stalled n) : n.memory = m.memory := by rw [h]

theorem Stalled.screen (h : m.Stalled n) : n.screen = m.screen := by rw [h]

theorem stalled_perform {a : Action} (ha : a.continues = true) (hc : a = .cycle → m.cycle.state = m) :
    m.Stalled (m.perform a).state := by
  cases a with
  | cycle =>
    show m.Stalled m.cycle.state
    rw [hc rfl]
    exact .refl m
  | tick =>
    rw [perform_tick_state]
    rfl
  | silence =>
    rw [perform_silence_state]
    rfl
  | press key =>
    rw [perform_press_state]
    rfl
  | release _ | clearKeys | setRandom _ => rfl
  | reset | load _ => cases ha

/-- cycles that leave the machine alone, wherever the program stands still up to them, let it stand still altogether -/
theorem stalled_trace {w : Machine} (h : m.Stalled w) (hc : ∀ a ∈ actions, a.continues = true)
    (hq : ∀ s ∈ w.trace actions, s.action = .cycle → m.Stalled s.machine → s.machine.cycle.state = s.machine) :
    (∀ s ∈ w.trace actions, m.Stalled s.machine) ∧ m.Stalled (w.after actions) :=
  trace_keeps h fun s hs hm =>
    hm.trans (stalled_perform (hc s.action (action_mem_of_trace hs)) fun ha => hq s hs ha hm)

/-- without a cycle the program stands still, whether a key is awaited or not -/
theorem stalled_of_no_cycle (hc : ∀ a ∈ actions, a.continues = true ∧ a.isCycle = false) :
    m.Stalled (m.after actions) := by
  refine (stalled_trace (.refl m) (fun a ha => (hc a ha).1) fun s hs ha _ => ?_).2
  obtain ⟨-, hn⟩ := hc s.action (action_mem_of_trace hs)
  rw [ha] at hn
  cases hn

end ChipEight.Machine
