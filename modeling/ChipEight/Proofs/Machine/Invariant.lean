/-
The invariant of a machine. The program counter is even and leaves the memory by at most two bytes, `I` stays inside,
the stack keeps to its limit and holds only addresses behind a call, and a key is awaited only in a register there is.

The counter gets out of the memory in three ways: past the last word (4096), past a skipped last word (4098), and back
to a call that was the last word (4096). No word can be fetched at either place, so it gets no further.

Results:
- `sound_cycle`, `sound_perform`: every cycle keeps the invariant, failing ones and polls included, and so does
  everything else that a host does;
- `sound_reached`: so it holds in every state that a machine gets into.
-/
import ChipEight.Proofs.Machine.Lifecycle
import ChipEight.Proofs.Machine.Refusal

namespace ChipEight.Machine

structure Sound (m : Machine) : Prop where
  pc_even : m.pc.toNat % 2 = 0
  pc_le : m.pc.toNat ≤ 4098
  index_le : m.index.toNat ≤ 0xFFF
  stack_le : m.stack.length ≤ 16
  /-- return addresses are behind a call, the last possible one at `0xFFE` -/
  stack_mem : ∀ a ∈ m.stack, a.toNat % 2 = 0 ∧ 2 ≤ a.toNat ∧ a.toNat ≤ 4096
  awaiting_lt : ∀ x, m.awaiting = some x → x < 16

variable {m : Machine} {w : Word} {i : Instruction} {e : Effect}

/-- the other parts of a machine have no share in it -/
theorem Sound.congr {n : Machine} (h : m.Sound) (hp : n.pc = m.pc) (hI : n.index = m.index) (hs : n.stack = m.stack)
    (ha : n.awaiting = m.awaiting) : n.Sound where
  pc_even := hp ▸ h.pc_even
  pc_le := hp ▸ h.pc_le
  index_le := hI ▸ h.index_le
  stack_le := hs ▸ h.stack_le
  stack_mem := hs ▸ h.stack_mem
  awaiting_lt := ha ▸ h.awaiting_lt

theorem sound_powerOn (random : RandomBytes) : (powerOn random).Sound := by
  constructor <;> simp [powerOn, Memory.programStart]

/-! ## One cycle -/

/-- behind a fetched word the counter is still at most at the end of the memory -/
theorem Sound.toNat_fetched_pc (h : m.Sound) (hw : m.AtPc w) :
    (m.fetched w).pc.toNat = m.pc.toNat + 2 ∧ m.pc.toNat + 2 ≤ 4096 := by
  have hlt := hw.1
  have he := h.pc_even
  exact ⟨hw.toNat_pc, by omega⟩

theorem Sound.fetched (h : m.Sound) (hw : m.AtPc w) : (m.fetched w).Sound := by
  obtain ⟨hp, hle⟩ := h.toNat_fetched_pc hw
  have he := h.pc_even
  exact { h with pc_even := by omega, pc_le := by omega }

/-- with the word fetched, an instruction fails exactly if it is refused, whatever the word was -/
theorem Sound.effect_eq_error_iff (h : m.Sound) (hi : i.Fits) {f : Failure CycleError} :
    (m.fetched w).effect i = .error f ↔ ∃ e, f = .error e ∧ m.Refuses i e := by
  have hI : (m.fetched w).index.toNat < 4096 := Nat.lt_succ_of_le h.index_le
  rw [Machine.effect_eq_error_iff hi hI h.stack_le]
  simp only [refuses_fetched]

theorem Sound.step_pc (h : m.Sound) (hw : m.AtPc w) (he : (m.fetched w).effect i = .ok e) :
    (e.step.apply e.machine.pc).toNat % 2 = 0 ∧ (e.step.apply e.machine.pc).toNat ≤ 4098 := by
  obtain ⟨hp, hle⟩ := h.toNat_fetched_pc hw
  have hev := h.pc_even
  rw [effect_pc he]
  rcases effect_step he with hs | hs | ⟨a, b, hb, hs⟩ | ⟨a, ha, hs⟩
  · rw [hs]; simp only [Step.apply]; omega
  · have hskip : (Step.skip.apply (m.fetched w).pc).toNat = ((m.fetched w).pc.toNat + 2) % 65536 :=
      UInt16.toNat_add _ _
    rw [hs, hskip]; omega
  · obtain ⟨rfl, hb2⟩ := target_eq_ok_iff.1 hb
    have := toNat_address a
    rw [hs]; simp only [Step.apply]; omega
  · obtain ⟨h1, -, h3⟩ := h.stack_mem a ha
    rw [hs]; simp only [Step.apply]; omega

theorem Sound.effect_stack (h : m.Sound) (hw : m.AtPc w) (he : (m.fetched w).effect i = .ok e) :
    e.machine.stack.length ≤ 16 ∧ ∀ a ∈ e.machine.stack, a.toNat % 2 = 0 ∧ 2 ≤ a.toNat ∧ a.toNat ≤ 4096 := by
  obtain ⟨hp, hle⟩ := h.toNat_fetched_pc hw
  have hev := h.pc_even
  rcases Machine.effect_stack he with hs | ⟨nnn, -, hl, hs⟩ | ⟨-, a, hs, -⟩
  · rw [hs]; exact ⟨h.stack_le, h.stack_mem⟩
  · have hl' : m.stack.length < 16 := hl
    rw [hs]
    refine ⟨hl', fun a ha => ?_⟩
    rcases List.mem_cons.1 ha with rfl | ha
    · omega
    · exact h.stack_mem a ha
  · have hs' : m.stack = a :: e.machine.stack := hs
    have hl := h.stack_le
    rw [hs', List.length_cons] at hl
    exact ⟨by omega, fun b hb => h.stack_mem b (hs' ▸ List.mem_cons_of_mem a hb)⟩

theorem Sound.done (h : m.Sound) (hx : m.awaiting = none) (hw : m.AtPc w) (hi : i.Fits)
    (he : (m.fetched w).effect i = .ok e) : (e.machine.follow e.step).Sound where
  pc_even := (h.step_pc hw he).1
  pc_le := (h.step_pc hw he).2
  index_le := effect_index_le (m := m.fetched w) h.index_le he
  stack_le := (h.effect_stack hw he).1
  stack_mem := (h.effect_stack hw he).2
  awaiting_lt := by
    intro x hx'
    have hx' : e.machine.awaiting = some x := hx'
    rcases effect_awaiting he with ha | ⟨y, rfl, ha⟩
    · rw [ha] at hx'
      exact absurd (hx'.symm.trans hx) (by simp)
    · rw [ha] at hx'
      cases hx'
      exact hi

theorem sound_of_course {o : Outcome Event Machine Report} (h : m.Sound) (hc : Course m o) : o.state.Sound := by
  cases hc with
  | polled x hx =>
    rcases m.poll_cases x with ⟨-, hp⟩ | ⟨key, -, -, hp⟩ | ⟨key, i, -, -, hp⟩ <;> rw [hp]
    · exact h
    · exact h
    · exact { h with awaiting_lt := by simp }
  | unfetched hx hp => exact h
  | unknown w hx hw hi => exact h.fetched hw
  | failed i f hx hw hi hf =>
    exact h.fetched hw
  | done i e hx hw hi he => exact h.done hx hw hi he

theorem sound_cycle (h : m.Sound) : m.cycle.state.Sound := sound_of_course h m.cycle_course

/-! ## Whole histories -/

theorem sound_load (m : Machine) (rom : Rom) : (m.load rom).state.Sound := by
  rw [load_state]
  exact (sound_powerOn m.random).congr rfl rfl rfl rfl

theorem sound_perform (h : m.Sound) (a : Action) : (m.perform a).state.Sound := by
  cases a with
  | cycle => exact sound_cycle h
  | tick =>
    rw [perform_tick_state]
    exact h.congr rfl rfl rfl rfl
  | silence =>
    rw [perform_silence_state]
    exact h.congr rfl rfl rfl rfl
  | reset =>
    rw [perform_reset_state]
    exact (sound_powerOn m.random).congr rfl rfl rfl rfl
  | load rom => exact sound_load m rom
  | press key =>
    rw [perform_press_state]
    exact h.congr rfl rfl rfl rfl
  | release _ | clearKeys | setRandom _ => exact h.congr rfl rfl rfl rfl

theorem sound_run (h : m.Sound) (actions : List Action) : (m.run actions).state.Sound := by
  induction actions generalizing m with
  | nil => exact h
  | cons a rest ih => exact ih (sound_perform h a)

theorem sound_reached (h : m.Reached) : m.Sound := by
  obtain ⟨random, actions, rfl⟩ := h
  exact sound_run (sound_powerOn random) actions

end ChipEight.Machine
