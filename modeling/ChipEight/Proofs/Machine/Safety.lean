/-
What the invariant of a machine excludes: a cycle outside of its contract, a sum that wraps around, and a fetch from
anywhere else than the memory or the two places right behind it.

Results:
- `Sound.exactSums`, `Sound.cycle_ne_contract`, `Sound.pc_of_outside`: each of the three for a machine that is `Sound`;
- `reached_safe`: all of it in every state that a machine gets into.
-/
import ChipEight.Proofs.Machine.Failure

namespace ChipEight.Machine

variable {m : Machine} {w : Word}

/-- no sum of sixteen bits wraps around in a cycle that runs the word `w` -/
structure ExactSums (m : Machine) (w : Word) : Prop where
  /-- past the fetched word -/
  fetch : (m.pc + Step.wordSize).toNat = m.pc.toNat + 2
  /-- past a word that its instruction skips -/
  skip : ∀ i e, Instruction.decode w = .ok i → (m.fetched w).effect i = .ok e →
    (e.machine.pc + Step.wordSize).toNat = e.machine.pc.toNat + 2
  /-- NNN plus V0 -/
  offset : ∀ nnn, Instruction.decode w = .ok (.jumpOffset nnn) →
    (nnn + (m.registers.get 0).toUInt16).toNat = nnn.toNat + (m.registers.get 0).toNat
  /-- I plus VX -/
  index : ∀ x i, Instruction.decode w = .ok (.addIndex x) → Registers.lookup x = .ok i →
    (m.index + (m.registers.get i).toUInt16).toNat = m.index.toNat + (m.registers.get i).toNat

theorem Sound.exactSums (h : m.Sound) (hw : m.AtPc w) : m.ExactSums w where
  fetch := (h.toNat_fetched_pc hw).1
  skip := by
    intro i e _ he
    obtain ⟨hp, hle⟩ := h.toNat_fetched_pc hw
    have hs : (e.machine.pc + Step.wordSize).toNat = (e.machine.pc.toNat + 2) % 65536 := UInt16.toNat_add _ _
    rw [effect_pc he] at hs ⊢
    omega
  offset := by
    intro nnn hd
    have hn : nnn.toNat < 4096 := (Instruction.decode_eq_ok_iff.1 hd).1
    have hv := (m.registers.get 0).toNat_lt
    rw [UInt16.toNat_add, UInt8.toNat_toUInt16]; omega
  index := by
    intro x i _ _
    have hI := h.index_le
    have hv := (m.registers.get i).toNat_lt
    rw [UInt16.toNat_add, UInt8.toNat_toUInt16]; omega

theorem Sound.cycle_ne_contract (h : m.Sound) : m.cycle.value ≠ .error .contract := by
  intro hc
  obtain ⟨e, he, -⟩ := (cycle_eq_error_iff h).1 hc
  cases he

theorem Sound.pc_of_outside {pointer : Size} {size : Nat} (h : m.Sound)
    (hc : m.cycle.value = .error (.error (.word (.outside pointer size)))) :
    pointer = m.pc.toUInt64 ∧ size = 4096 ∧ 4096 ≤ m.pc.toNat := by
  obtain ⟨e, he, -, hf⟩ := (cycle_eq_error_iff h).1 hc
  cases he
  cases hf with
  | outside hp => exact ⟨rfl, rfl, hp⟩
  | refused i e hw hi he => exact absurd rfl he.ne_word

/-- **A machine is safe in every state it gets into.** The invariant holds, with a memory of 4096 bytes; no cycle leaves
its contract; no sum of sixteen bits wraps around, whatever the word is that runs; and the only failed fetches are at
4096 and 4098. -/
theorem reached_safe (m : Machine) (h : m.Reached) :
    m.memory.toArray.size = 4096 ∧ m.Sound ∧ m.cycle.value ≠ .error .contract ∧
      (∀ w, m.awaiting = none → m.AtPc w → m.ExactSums w) ∧
      ∀ pointer size, m.cycle.value = .error (.error (.word (.outside pointer size))) →
        (pointer = 4096 ∨ pointer = 4098) ∧ size = 4096 := by
  have hs := sound_reached h
  refine ⟨m.memory.size_toArray, hs, hs.cycle_ne_contract, fun w _ hw => hs.exactSums hw, fun pointer size hc => ?_⟩
  obtain ⟨rfl, rfl, hp⟩ := hs.pc_of_outside hc
  have hle := hs.pc_le
  have hev := hs.pc_even
  have hpc : m.pc.toNat = 4096 ∨ m.pc.toNat = 4098 := by omega
  refine ⟨?_, rfl⟩
  rcases hpc with hpc | hpc
  · left; rw [← UInt64.toNat_inj, UInt16.toNat_toUInt64, hpc]; rfl
  · right; rw [← UInt64.toNat_inj, UInt16.toNat_toUInt64, hpc]; rfl

/-- V0 becomes `40`, which is stored as the first byte of the last word, and the word `4000` there skips -/
def pastEnd : Rom := ⟨"", [0x60, 0x40, 0xAF, 0xFE, 0xF0, 0x55, 0x1F, 0xFE], by decide⟩

/-- the furthest that the counter gets -/
theorem pastEnd_safe :
    let m := (powerOn (.ofScript #[])).after [.load pastEnd, .cycle, .cycle, .cycle, .cycle, .cycle]
    m.pc = 4098 ∧ m.Reached ∧ m.Sound ∧ m.cycle.value ≠ .error .contract := by
  intro m
  have hr : m.Reached := ⟨_, _, rfl⟩
  have h := reached_safe m hr
  exact ⟨by decide +kernel, hr, h.2.1, h.2.2.1⟩

end ChipEight.Machine
