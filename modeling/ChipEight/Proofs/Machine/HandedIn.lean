/-
Instructions that a host hands in. They need not come from a word: a register number may be above fifteen, an address
longer than twelve bits, a sprite higher than fifteen rows. The only way out of the contract is to look up a register
that there is not, and by then nothing was written; `CXNN` has taken its random byte. `FX0A` looks up none, the register
that it keeps is only looked up when a key comes; `FX55` and `FX65` look at their block of memory first.

Results:
- `effect_eq_contract_iff`: when an instruction is outside of the contract;
- `Aligned.follow`: an instruction keeps the counter and the return addresses even, whatever its operands are;
- `missing_register_fails_clean`: what a host can rely on with any instruction it hands in.
-/
import ChipEight.Proofs.Machine.Frame

namespace ChipEight

/-! ## Operands -/

namespace Instruction

/-- its register numbers, and the height of its sprite -/
def operands : Instruction → List Size
  | .clearScreen | .ret | .machineRoutine _ | .jump _ | .call _ | .loadIndex _ | .jumpOffset _ => []
  | .skipEqual x _ | .skipNotEqual x _ | .load x _ | .add x _ | .random x _ => [x]
  | .skipSame x y | .skipDifferent x y | .alu _ x y => [x, y]
  | .draw x y n => [x, y, n]
  | .skipPressed x | .skipNotPressed x | .readDelay x | .awaitKey x | .setDelay x | .setSound x | .addIndex x
  | .pointGlyph x | .storeDigits x | .storeRegisters x | .fillRegisters x => [x]

/-- the register numbers that it looks up; both of a pair, also in a shift, which has no use for VY -/
def lookups : Instruction → List Size
  | .draw x y _ => [x, y]
  | .awaitKey _ => []
  | i => i.operands

end Instruction

namespace Registers

variable {x : Size}

theorem lookup_eq_error_iff {f : Failure CycleError} : lookup x = .error f ↔ f = .contract ∧ 15 < x.toNat := by
  unfold lookup
  split_ifs with h
  · simp only [false_iff]
    intro ⟨_, h15⟩; omega
  · rw [Except.error.injEq]
    exact ⟨fun hf => ⟨hf.symm, by omega⟩, fun hf => hf.1.symm⟩

theorem exists_lookup_iff : (∃ i, lookup x = .ok i) ↔ ¬ 15 < x.toNat := by
  refine ⟨fun ⟨i, hi⟩ => ?_, fun h => ⟨_, lookup_of_lt (show x.toNat < 16 by omega)⟩⟩
  have hlt := i.isLt
  rw [lookup_eq_ok_iff.1 hi] at hlt
  omega

end Registers

namespace Machine

variable {m : Machine} {i : Instruction} {e : Effect}

/-! ## Outside of the contract -/

/-- The instruction looks up a register that the machine does not have, and gets as far as that: a block of registers is
refused before if it does not end within the memory. -/
def Lacks (m : Machine) (i : Instruction) : Prop :=
  (∃ x ∈ i.lookups, 15 < x.toNat) ∧
    ∀ x, i = .storeRegisters x ∨ i = .fillRegisters x → m.index.toNat + x.toNat + 1 ≤ 4096

theorem lacks_iff (hi : ∀ x, i ≠ .storeRegisters x ∧ i ≠ .fillRegisters x) :
    m.Lacks i ↔ ∃ x ∈ i.lookups, 15 < x.toNat :=
  and_iff_left fun x hx => absurd hx (not_or.2 (hi x))

theorem target_ne_contract (a : UInt16) : target a ≠ .error .contract := by
  intro h
  cases (target_eq_error_iff.1 h).1

section Window

variable {index : UInt16} {n : Size} (hn : index.toNat + n.toNat < 2 ^ 64)

include hn

theorem window_ne_contract : window index.toUInt64 n ≠ .error .contract := by
  rw [window_index hn]
  split_ifs <;> nofun

theorem window_eq_ok_iff : window index.toUInt64 n = .ok () ↔ index.toNat + n.toNat ≤ 4096 := by
  rw [window_index hn]
  split_ifs with h
  · exact iff_of_true rfl h
  · exact iff_of_false nofun h

end Window

theorem effect_eq_contract_iff (hi : ∀ k ∈ i.operands, k.toNat < 2 ^ 32) :
    m.effect i = .error .contract ↔ m.Lacks i := by
  have hI := m.index.toNat_lt
  cases i with
  | clearScreen | machineRoutine nnn | loadIndex nnn | awaitKey x =>
    rw [lacks_iff (by simp)]
    simp [effect, Instruction.lookups, Instruction.operands]
  | ret =>
    rw [lacks_iff (by simp)]
    cases hs : m.stack <;> simp [effect, hs, Instruction.lookups, Instruction.operands]
  | jump nnn | jumpOffset nnn =>
    rw [lacks_iff (by simp)]
    refine iff_of_false ?_ (by simp [Instruction.lookups, Instruction.operands])
    simp [effect, Registers.lookup_zero, bind_eq_error, target_ne_contract]
  | call nnn =>
    rw [lacks_iff (by simp)]
    refine iff_of_false ?_ (by simp [Instruction.lookups, Instruction.operands])
    simp only [effect, bind_eq_error, target_ne_contract, false_or, not_exists, not_and]
    intro a _
    grind
  | skipEqual x nn | skipNotEqual x nn | load x nn | add x nn | random x nn | skipPressed x | skipNotPressed x
  | readDelay x | setDelay x | setSound x | addIndex x | pointGlyph x =>
    rw [lacks_iff (by simp)]
    simp [effect, bind_eq_error, Registers.lookup_eq_error_iff, Instruction.lookups, Instruction.operands]
  | skipSame x y | skipDifferent x y | alu op x y =>
    -- the second register is only looked up if the first is there
    rw [lacks_iff (by simp)]
    simp only [effect, bind_eq_error, Registers.lookup_eq_error_iff, true_and, reduceCtorEq, and_false, exists_const,
      or_false, exists_and_right, Registers.exists_lookup_iff, Instruction.lookups, Instruction.operands,
      List.mem_cons, List.not_mem_nil, exists_eq_or_imp, ↓existsAndEq]
    omega
  | draw x y n =>
    have hn : n.toNat < 2 ^ 32 := hi n (by simp [Instruction.operands])
    have hwindow := window_ne_contract (show m.index.toNat + n.toNat < 2 ^ 64 by omega)
    rw [lacks_iff (by simp)]
    simp only [effect, bind_eq_error, Registers.lookup_eq_error_iff, true_and, hwindow, reduceCtorEq, and_false,
      exists_const, or_self, or_false, exists_and_right, Registers.exists_lookup_iff, Instruction.lookups,
      List.mem_cons, List.not_mem_nil, exists_eq_or_imp, ↓existsAndEq]
    omega
  | storeDigits x =>
    have hwindow := window_ne_contract (show m.index.toNat + (3 : Size).toNat < 2 ^ 64 by simp; omega)
    rw [lacks_iff (by simp)]
    simp [effect, bind_eq_error, Registers.lookup_eq_error_iff, Instruction.lookups, Instruction.operands, hwindow]
  | storeRegisters x | fillRegisters x =>
    have hx : x.toNat < 2 ^ 32 := hi x (by simp [Instruction.operands])
    have hx1 := toNat_add_one hx
    have hfit : m.index.toNat + (x + 1).toNat < 2 ^ 64 := by omega
    simp only [effect, bind_eq_error, window_ne_contract hfit, window_eq_ok_iff hfit, hx1,
      Registers.lookup_eq_error_iff, true_and, reduceCtorEq, and_false, exists_const, or_false, false_or, Lacks,
      Instruction.lookups, Instruction.operands, List.mem_cons, List.not_mem_nil, exists_eq_left,
      Instruction.storeRegisters.injEq, Instruction.fillRegisters.injEq, Order.add_one_le_iff, forall_eq']
    omega

/-- a block of registers that does not end within the memory is refused, also if it runs past VF -/
theorem execute_registers_outside {x : Size} (hi : i = .storeRegisters x ∨ i = .fillRegisters x)
    (hx : x.toNat < 2 ^ 32) (hout : 4096 < m.index.toNat + x.toNat + 1) :
    m.execute i = ⟨.error (.error (.memoryAccess m.index.toUInt64 (x + 1))), m, []⟩ := by
  have hI := m.index.toNat_lt
  have hx1 := toNat_add_one hx
  have hwindow : window m.index.toUInt64 (x + 1) = _ := window_outside (by omega) (by omega)
  rcases hi with rfl | rfl <;>
  · refine execute_of_error ?_
    simp only [effect, hwindow, bind, Except.bind]

theorem execute_of_contract (h : (m.execute i).value = .error .contract) :
    (m.execute i).state = (if i.takesRandom then { m with random := m.random.tail } else m) ∧
      (m.execute i).events = [] := by
  rw [execute_of_error (execute_eq_error_iff.1 h)]
  exact ⟨rfl, rfl⟩

/-! ## Inside of it -/

/-- the counter and all return addresses are even -/
structure Aligned (m : Machine) : Prop where
  pc_even : m.pc.toNat % 2 = 0
  stack_even : ∀ a ∈ m.stack, a.toNat % 2 = 0

theorem Aligned.step_pc (h : m.Aligned) (he : m.effect i = .ok e) : (e.step.apply e.machine.pc).toNat % 2 = 0 := by
  have hpc := h.pc_even
  rw [effect_pc he]
  rcases effect_step he with hs | hs | ⟨a, b, hb, hs⟩ | ⟨a, ha, hs⟩
  · rw [hs]; exact hpc
  · have hskip : (Step.skip.apply m.pc).toNat = (m.pc.toNat + 2) % 65536 := UInt16.toNat_add _ _
    rw [hs, hskip]; omega
  · rw [hs]; exact (target_eq_ok_iff.1 hb).2
  · rw [hs]; exact h.stack_even a ha

theorem Aligned.follow (h : m.Aligned) (he : m.effect i = .ok e) : (e.machine.follow e.step).Aligned where
  pc_even := h.step_pc he
  stack_even := by
    show ∀ a ∈ e.machine.stack, a.toNat % 2 = 0
    intro a ha
    rcases effect_stack he with hs | ⟨nnn, -, -, hs⟩ | ⟨-, b, hs, -⟩
    · exact h.stack_even a (hs ▸ ha)
    · rw [hs] at ha
      rcases List.mem_cons.1 ha with rfl | ha
      · exact h.pc_even
      · exact h.stack_even a ha
    · exact h.stack_even a (hs ▸ List.mem_cons_of_mem b ha)

/-- `I` stays within the memory and the addresses stay even, also behind an instruction that fails -/
theorem execute_keeps (hI : m.index.toNat ≤ 0xFFF) :
    (m.execute i).state.index.toNat ≤ 0xFFF ∧ (m.Aligned → (m.execute i).state.Aligned) := by
  cases he : m.effect i with
  | ok e =>
    rw [execute_of_effect he]
    exact ⟨effect_index_le hI he, fun h => h.follow he⟩
  | error f =>
    rw [execute_of_error he, Outcome.quiet]
    split_ifs <;> exact ⟨hI, fun h => ⟨h.pc_even, h.stack_even⟩⟩

/-- **An instruction handed in fails fast and clean.** With `I` in the memory and operands of at most 32 bits it is
outside of the contract exactly if the machine `Lacks` a register that it looks up; `FX0A` never is, and a block of
registers past the end of the memory is an error instead. Outside of the contract nothing was done but that `CXNN` took
its random byte. In any other case `I` stays in the memory, which keeps its size, and the counter and the return
addresses stay even. -/
theorem missing_register_fails_clean (m : Machine) (i : Instruction) (hI : m.index.toNat ≤ 0xFFF)
    (hi : ∀ k ∈ i.operands, k.toNat < 2 ^ 32) :
    ((m.execute i).value = .error .contract ↔ m.Lacks i) ∧
    (∀ x, i = .awaitKey x → (m.execute i).value = .ok .wait) ∧
    (∀ x, i = .storeRegisters x ∨ i = .fillRegisters x → 4096 < m.index.toNat + x.toNat + 1 →
      m.execute i = ⟨.error (.error (.memoryAccess m.index.toUInt64 (x + 1))), m, []⟩) ∧
    ((m.execute i).value = .error .contract →
      (m.execute i).state = (if i.takesRandom then { m with random := m.random.tail } else m) ∧
      (m.execute i).events = []) ∧
    ((m.execute i).value ≠ .error .contract →
      (m.execute i).state.index.toNat ≤ 0xFFF ∧ (m.execute i).state.memory.toArray.size = 4096 ∧
      (m.Aligned → (m.execute i).state.Aligned)) := by
  refine ⟨?_, ?_, ?_, execute_of_contract, fun _ => ?_⟩
  · exact execute_eq_error_iff.trans (effect_eq_contract_iff hi)
  · rintro x rfl
    rfl
  · intro x hx
    exact execute_registers_outside hx (hi x (by rcases hx with rfl | rfl <;> simp [Instruction.operands]))
  · obtain ⟨hindex, haligned⟩ := execute_keeps (i := i) hI
    exact ⟨hindex, Vector.size_toArray _, haligned⟩

/-- `I` at the last place for sixteen registers -/
def lastRegisters : Rom := ⟨"", [0xAF, 0xF0], by decide⟩

/-- a shift by a register there is not, a random byte for one, and seventeen registers, which do not fit -/
theorem lastRegisters_clean :
    let m := (powerOn (.ofScript #[0xAB])).after [.load lastRegisters, .cycle]
    m.index.toNat + 16 = 4096 ∧
      m.execute (.alu .shiftRight 0 16) = ⟨.error .contract, m, []⟩ ∧
      m.execute (.random 16 0xFF) = ⟨.error .contract, { m with random := m.random.tail }, []⟩ ∧
      m.execute (.storeRegisters 16) = ⟨.error (.error (.memoryAccess 0xFF0 17)), m, []⟩ := by
  intro m
  have hm : m.index = 0xFF0 := by decide +kernel
  -- which run it was is settled by now
  clear_value m
  have hI : m.index.toNat ≤ 0xFFF := by rw [hm]; decide
  have hlacks (x : Size) (i : Instruction) (hx : x ∈ i.lookups) (h15 : 15 < x.toNat)
      (hi : ∀ x, i ≠ .storeRegisters x ∧ i ≠ .fillRegisters x) : m.Lacks i := (lacks_iff hi).2 ⟨x, hx, h15⟩
  obtain ⟨hshift, -, -, hshifted, -⟩ :=
    missing_register_fails_clean m (.alu .shiftRight 0 16) hI (by simp [Instruction.operands])
  obtain ⟨hrandom, -, -, htaken, -⟩ :=
    missing_register_fails_clean m (.random 16 0xFF) hI (by simp [Instruction.operands])
  obtain ⟨-, -, houtside, -, -⟩ :=
    missing_register_fails_clean m (.storeRegisters 16) hI (by simp [Instruction.operands])
  have hvalue := hshift.2 (hlacks 16 _ (by decide) (by decide) (by simp))
  have hvalue' := hrandom.2 (hlacks 16 _ (by decide) (by decide) (by simp))
  refine ⟨by rw [hm]; rfl, ?_, ?_, ?_⟩
  · obtain ⟨hstate, hevents⟩ := hshifted hvalue
    exact congr (congr (congrArg Outcome.mk hvalue) hstate) hevents
  · obtain ⟨hstate, hevents⟩ := htaken hvalue'
    exact congr (congr (congrArg Outcome.mk hvalue') hstate) hevents
  · have hout := houtside 16 (.inl rfl)
    rw [hm] at hout
    exact hout (by decide)

end Machine

end ChipEight
