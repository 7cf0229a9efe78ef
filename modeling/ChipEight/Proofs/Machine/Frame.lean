/-
The frame of a cycle: which parts of the machine an instruction may write. `writes` and `writesByte` give the registers
and the bytes of memory, the other tables say who moves the stack, sets `I`, calls the display or takes a random byte.
Outside of its row a cycle that ran the instruction leaves everything as it found it.

An instruction that writes a part need not change it; what it writes may be what stood there.

Results:
- `get_alu_of_ne`, `get_fill_of_le`: the registers that an operation leaves alone, whichever it was aimed at;
- `effect_register`, `effect_byte`, `effect_stack_of`, `effect_index_of`, `effect_screen`, `effect_display`: one lemma
  for each part, over all instructions;
- `cycle_frame`: all of it for every cycle that fetches a word and runs it.
-/
import ChipEight.Proofs.Machine.Nesting
import ChipEight.Proofs.Machine.Tone

namespace ChipEight

/-! ## What an instruction writes -/

namespace AluOp

/-- the operation leaves a flag in VF -/
def setsFlag : AluOp → Bool
  | .load | .or | .and | .xor => false
  | .add | .sub | .shiftRight | .subFrom | .shiftLeft => true

end AluOp

namespace Instruction

/-- the registers that an instruction writes -/
def writes (j : Fin 16) : Instruction → Prop
  | .load x _ | .add x _ | .random x _ | .readDelay x => j.val = x.toNat
  | .alu op x _ => j.val = x.toNat ∨ op.setsFlag = true ∧ j = Registers.flag
  | .draw .. => j = Registers.flag
  | .fillRegisters x => j.val ≤ x.toNat
  | _ => False

/-- the bytes that it writes, with this `I` -/
def writesByte (index k : Nat) : Instruction → Prop
  | .storeDigits _ => index ≤ k ∧ k < index + 3
  | .storeRegisters x => index ≤ k ∧ k ≤ index + x.toNat
  | _ => False

def movesStack : Instruction → Bool
  | .call _ | .ret => true
  | _ => false

def setsIndex : Instruction → Bool
  | .loadIndex _ | .addIndex _ | .pointGlyph _ => true
  | _ => false

def awaitsKey : Instruction → Bool
  | .awaitKey _ => true
  | _ => false

def callsDisplay : Instruction → Bool
  | .clearScreen | .draw .. => true
  | _ => false

end Instruction

/-! ## Registers and bytes -/

namespace Registers

variable {r : Registers} {j x y : Fin 16}

theorem get_put_of_ne {v : UInt8} (h : j ≠ x) : (r.put x v).get j = r.get j := by
  rw [get_put, if_neg h.symm]

theorem get_alu_of_ne {op : AluOp} (hx : j ≠ x) (hf : op.setsFlag = true → j ≠ flag) :
    (r.alu op x y).get j = r.get j := by
  cases op with
  | load | or | and | xor => exact get_put_of_ne hx
  | add | sub | subFrom =>
    have hf : j ≠ flag := hf rfl
    simp only [alu, get_put_of_ne hf, get_put_of_ne hx]
  | shiftRight | shiftLeft =>
    -- here the flag is written first
    have hf : j ≠ flag := hf rfl
    simp only [alu, get_put_of_ne hf, get_put_of_ne hx]

theorem get_fill (bytes : List UInt8) : (r.fill bytes).get j = bytes[j.val]?.getD (r.get j) := by
  show (r.fill bytes)[j.val] = _
  rw [fill, Vector.getElem_ofFn]

theorem get_fill_of_le {bytes : List UInt8} (h : bytes.length ≤ j.val) : (r.fill bytes).get j = r.get j := by
  rw [get_fill, List.getElem?_eq_none h, Option.getD_none]

end Registers

theorem Memory.getElem_write_of_outside {m : Memory} {start k : Nat} {bytes : List UInt8} (hk : k < 4096)
    (h : ¬ (start ≤ k ∧ k < start + bytes.length)) : (m.write start bytes)[k] = m[k] := by
  rw [getElem_write _ _ _ _ hk, if_neg h]

theorem Memory.length_read_le (m : Memory) (start count : Nat) : (m.read start count).length ≤ count := by
  simp only [read, Array.length_toList, Array.size_extract]; omega

namespace Machine

variable {m : Machine} {i : Instruction} {e : Effect}

/-! ## Parts of the machine -/

theorem effect_register {j : Fin 16} (h : m.effect i = .ok e) (hj : ¬ i.writes j) :
    e.machine.registers.get j = m.registers.get j := by
  cases i with
  | load x nn | add x nn | random x nn | readDelay x =>
    simp only [effect, bind_eq_ok, Registers.lookup_eq_ok_iff] at h
    obtain ⟨k, hk, h⟩ := h
    cases h
    have hne : j ≠ k := fun hjk => hj (hjk ▸ hk)
    exact Registers.get_put_of_ne hne
  | alu op x y =>
    simp only [effect, bind_eq_ok, Registers.lookup_eq_ok_iff] at h
    obtain ⟨k, hk, l, -, h⟩ := h
    cases h
    have hne : j ≠ k := fun hjk => hj (.inl (hjk ▸ hk))
    exact Registers.get_alu_of_ne hne fun hop hf => hj (.inr ⟨hop, hf⟩)
  | draw x y n =>
    simp only [effect, bind_eq_ok] at h
    obtain ⟨k, -, l, -, -, -, h⟩ := h
    cases h
    exact Registers.get_put_of_ne hj
  | fillRegisters x =>
    simp only [effect, bind_eq_ok, Registers.lookup_eq_ok_iff] at h
    obtain ⟨-, -, k, hk, h⟩ := h
    cases h
    have hlt : x.toNat < j.val := Nat.lt_of_not_le hj
    have hlen := m.memory.length_read_le m.index.toNat (k.val + 1)
    exact Registers.get_fill_of_le (by omega)
  | _ =>
    simp only [effect, bind_eq_ok] at h
    grind

theorem effect_byte {k : Nat} (hk : k < 4096) (h : m.effect i = .ok e) (hb : ¬ i.writesByte m.index.toNat k) :
    e.machine.memory[k] = m.memory[k] := by
  cases i with
  | storeDigits x =>
    simp only [effect, bind_eq_ok] at h
    obtain ⟨l, -, -, -, h⟩ := h
    cases h
    exact Memory.getElem_write_of_outside hk hb
  | storeRegisters x =>
    simp only [effect, bind_eq_ok, Registers.lookup_eq_ok_iff] at h
    obtain ⟨-, -, l, hl, h⟩ := h
    cases h
    have hlen : (m.registers.toList.take (l.val + 1)).length ≤ x.toNat + 1 := by
      rw [List.length_take, hl]
      exact Nat.min_le_left _ _
    refine Memory.getElem_write_of_outside hk fun hin => hb ?_
    exact ⟨hin.1, by omega⟩
  | _ =>
    simp only [effect, bind_eq_ok] at h
    grind

theorem effect_stack_of (h : m.effect i = .ok e) (hi : i.movesStack = false) : e.machine.stack = m.stack := by
  rcases effect_stack h with hs | ⟨nnn, rfl, -⟩ | ⟨rfl, -⟩
  · exact hs
  · cases hi
  · cases hi

theorem effect_index_of (h : m.effect i = .ok e) (hi : i.setsIndex = false) : e.machine.index = m.index := by
  cases i with
  | loadIndex nnn | addIndex x | pointGlyph x => cases hi
  | _ =>
    simp only [effect, bind_eq_ok] at h
    grind

theorem effect_screen (h : m.effect i = .ok e) (hi : i.callsDisplay = false) : e.machine.screen = m.screen := by
  cases i with
  | clearScreen | draw x y n => cases hi
  | _ =>
    simp only [effect, bind_eq_ok] at h
    grind

/-- the display is called once or not at all -/
theorem effect_display (h : m.effect i = .ok e) :
    e.events.countP Event.onDisplay = if i.callsDisplay then 1 else 0 := by
  cases i with
  | clearScreen | machineRoutine nnn | awaitKey x => cases h; rfl
  | draw x y n =>
    simp only [effect, bind_eq_ok] at h
    obtain ⟨k, -, l, -, -, -, h⟩ := h
    cases h
    rfl
  | _ =>
    have he : e.events = [] := by
      simp only [effect, bind_eq_ok] at h
      grind
    rw [he]
    rfl

theorem effect_random (h : m.effect i = .ok e) :
    e.machine.random = if i.takesRandom then m.random.tail else m.random := by
  have hs : e.machine.random = (i.leaves m.registers m.surroundings).random :=
    congrArg Surroundings.random (surroundings_effect h)
  rw [hs]
  cases i with
  | random x nn => rfl
  | setDelay x | setSound x =>
    simp only [Instruction.leaves]
    cases Registers.lookup x <;> rfl
  | _ => rfl

/-! ## One cycle -/

/-- what a cycle that ran `i` did, at most, to the machine it found -/
structure Framed (m : Machine) (i : Instruction) (o : Outcome Event Machine Report) : Prop where
  memory : ∀ k (hk : k < 4096), ¬ i.writesByte m.index.toNat k → o.state.memory[k] = m.memory[k]
  registers : ∀ j, ¬ i.writes j → o.state.registers.get j = m.registers.get j
  stack : i.movesStack = false → o.state.stack = m.stack
  /-- a call puts one address on the stack -/
  push : ∀ nnn, i = .call nnn → o.state.stack = (m.pc + 2) :: m.stack
  /-- a return takes one off -/
  pop : i = .ret → ∃ a, m.stack = a :: o.state.stack
  index : i.setsIndex = false → o.state.index = m.index
  delay : i.setsDelay = false → o.state.delay = m.delay
  sound : i.setsSound = false → o.state.sound = m.sound
  awaiting : i.awaitsKey = false → o.state.awaiting = m.awaiting
  screen : i.callsDisplay = false → o.state.screen = m.screen
  display : o.events.countP Event.onDisplay = if i.callsDisplay then 1 else 0
  random : o.state.random = if i.takesRandom then m.random.tail else m.random
  beeping : o.state.beeping = m.beeping
  beeper : beeps o.events = []

theorem framed_of_effect (hi : m.upcoming = some i) (he : (m.fetched i.encode).effect i = .ok e) :
    m.Framed i m.cycle where
  beeping := m.cycle_beeping
  beeper := m.beeps_cycle
  delay hd := cycle_delay (by rw [hi]; exact hd)
  sound hs := cycle_sound (by rw [hi]; exact hs)
  memory k hk hb := by
    rw [cycle_of_effect hi he]
    exact effect_byte (m := m.fetched i.encode) hk he hb
  registers j hj := by
    rw [cycle_of_effect hi he]
    exact effect_register (m := m.fetched i.encode) he hj
  stack hs := by
    rw [cycle_of_effect hi he]
    exact effect_stack_of (m := m.fetched i.encode) he hs
  push nnn hc := by
    subst hc
    rw [cycle_of_effect hi he]
    exact effect_call he
  pop hr := by
    subst hr
    rw [cycle_of_effect hi he]
    exact ⟨_, (effect_ret he).2⟩
  index hx := by
    rw [cycle_of_effect hi he]
    exact effect_index_of (m := m.fetched i.encode) he hx
  awaiting ha := by
    rw [cycle_of_effect hi he]
    rcases effect_awaiting he with h | ⟨x, rfl, -⟩
    · exact h
    · cases ha
  screen hs := by
    rw [cycle_of_effect hi he]
    exact effect_screen (m := m.fetched i.encode) he hs
  display := by
    rw [cycle_of_effect hi he, List.countP_cons_of_neg (by simp [Event.onDisplay])]
    exact effect_display he
  random := by
    rw [cycle_of_effect hi he]
    exact effect_random (m := m.fetched i.encode) he

/-- **The frame of a cycle.** A cycle that fetches a word and goes well has run the instruction of this word, and what
it did is within the frame of that instruction: bytes, registers, stack, `I`, the countdowns, the wait, the screen and
the random stream change only through the instructions that write them, the tone never does. In particular

- VF is left alone by `7XNN` and by the operations that leave no flag, unless X is F, and by `FX1E` in any case;
- `I` is left alone by `DXYN`, `FX33`, `FX55` and `FX65`. -/
theorem cycle_frame (m : Machine) (hx : m.awaiting = none) {op : Operation} (ho : m.cycle.value = .ok op) :
    ∃ i, m.upcoming = some i ∧ m.Framed i m.cycle ∧
      ((∀ x nn, i = .add x nn → x ≠ 15 → m.cycle.state.registers.get 15 = m.registers.get 15) ∧
        (∀ op x y, i = .alu op x y → op ∈ [AluOp.load, .or, .and, .xor] → x ≠ 15 →
          m.cycle.state.registers.get 15 = m.registers.get 15) ∧
        (∀ x, i = .addIndex x → m.cycle.state.registers = m.registers)) ∧
      ((∃ x y n, i = .draw x y n) ∨ (∃ x, i = .storeDigits x ∨ i = .storeRegisters x ∨ i = .fillRegisters x) →
        m.cycle.state.index = m.index) := by
  obtain ⟨i, e, hi, he⟩ := effect_of_ok hx ho
  have hf := framed_of_effect hi he
  have h15 {x : Size} (hne : x ≠ 15) : ¬ (15 : Fin 16).val = x.toNat := fun h => hne (UInt64.toNat_inj.1 h.symm)
  refine ⟨i, hi, hf, ⟨?_, ?_, ?_⟩, ?_⟩
  · rintro x nn rfl hne
    exact hf.registers 15 (h15 hne)
  · rintro op x y rfl hop hne
    refine hf.registers 15 ?_
    rintro (h | ⟨hs, -⟩)
    · exact h15 hne h
    · simp only [List.mem_cons, List.not_mem_nil, or_false] at hop
      rcases hop with rfl | rfl | rfl | rfl <;> cases hs
  · rintro x rfl
    exact Vector.ext fun k hk => hf.registers ⟨k, hk⟩ id
  · rintro (⟨x, y, n, rfl⟩ | ⟨x, rfl | rfl | rfl⟩) <;> exact hf.index rfl

/-- V0 and V1 are stored where the instruction stands that stores them -/
def selfWriting : Rom := ⟨"", [0xA2, 0x02, 0xF1, 0x55, 0x12, 0x04], by decide⟩

/-- the instruction is gone, and the one behind it is as it was -/
theorem selfWriting_framed :
    let m := (powerOn (.ofScript #[])).after [.load selfWriting, .cycle]
    m.awaiting = none ∧ m.cycle.value = .ok .plain ∧ m.Framed (.storeRegisters 1) m.cycle ∧
      m.cycle.state.index = m.index ∧ m.memory[0x202] = 0xF1 ∧ m.cycle.state.memory[0x202] = 0 ∧
      m.cycle.state.memory[0x204] = m.memory[0x204] := by
  intro m
  have hnow : m.awaiting = none ∧ m.cycle.value = .ok .plain ∧ m.upcoming = some (.storeRegisters 1) ∧
      m.index = 0x202 ∧ m.memory[0x202] = 0xF1 ∧ m.cycle.state.memory[0x202] = 0 := by decide +kernel
  obtain ⟨hx, ho, hi, hI, hwas, his⟩ := hnow
  obtain ⟨i, hi', hf, -, hindex⟩ := cycle_frame m hx ho
  obtain rfl : i = .storeRegisters 1 := Option.some.inj (hi'.symm.trans hi)
  have hout : ¬ (Instruction.storeRegisters 1).writesByte m.index.toNat 0x204 := by
    rw [hI]
    simp [Instruction.writesByte]
  exact ⟨hx, ho, hf, hindex (.inr ⟨1, .inr (.inl rfl)⟩), hwas, his, hf.memory 0x204 (by decide) hout⟩

end Machine

end ChipEight
