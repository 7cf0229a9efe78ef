/-
A load starts afresh. Whatever ran before, a load leaves the font, the program and zeros in the memory and everything
else as in a new machine; only the keypad and the random stream are kept. So from then on nothing that ran before can
be told: a new machine with the same rom, the same keypad and the same random bytes to come answers every history in
the same way.

Two streams with the same bytes to come need not be equal, they may have started at different places. So the two
machines are the same but for their streams, and every action keeps them so.

Results:
- `toList_write`, `toList_load`: writing replaces a part of the memory, and what a load makes of all of it;
- `perform_renewed`, `run_renewed`: machines that differ only in what was taken of their streams answer alike;
- `load_starts_fresh`: what a load leaves, and that it cannot be told from the load of a new machine.
-/
import ChipEight.Proofs.Machine.Program
import ChipEight.Proofs.Machine.Surroundings

namespace ChipEight

/-! ## Memory -/

namespace Memory

theorem toList_write (m : Memory) {start : Nat} {bytes : List UInt8} (h : start + bytes.length ≤ 4096) :
    (m.write start bytes).toList = m.toList.take start ++ bytes ++ m.toList.drop (start + bytes.length) := by
  have hm : m.toList.length = 4096 := m.length_toList
  apply List.ext_getElem
  · simp only [Vector.length_toList, List.length_append, List.length_take, List.length_drop]; omega
  · intro i h1 h2
    have hi : i < 4096 := by simpa using h1
    rw [Vector.getElem_toList, getElem_write _ _ _ _ hi]
    simp only [List.getElem_append, List.length_take, List.getElem_take, List.getElem_drop]
    grind

theorem length_font : font.length = 80 := rfl

theorem toList_initial : initial.toList = font ++ List.replicate 4016 0 := by
  rw [initial, loadFont, toList_write _ (by decide), Vector.toList_replicate, List.take_zero, List.nil_append,
    length_font, List.drop_replicate]

end Memory

theorem Machine.toList_load (m : Machine) (rom : Rom) :
    (m.load rom).state.memory.toList =
      Memory.font ++ List.replicate (0x200 - 80) 0 ++ rom.data ++ List.replicate (Rom.capacity - rom.size) 0 := by
  have hr : rom.data.length ≤ 3584 := rom.data_le_capacity
  have hm : (m.load rom).state.memory = Memory.initial.write 0x200 rom.data := by rw [load_state]; rfl
  have hn : 4016 - (0x200 + rom.data.length - 80) = Rom.capacity - rom.size := by
    show _ = 3584 - rom.data.length
    omega
  rw [hm, Memory.toList_write _ (by omega), Memory.toList_initial, List.take_append, List.drop_append,
    Memory.length_font, List.take_of_length_le (by decide), List.drop_of_length_le (by rw [Memory.length_font]; omega),
    List.take_replicate, List.drop_replicate, List.nil_append, hn]
  rfl

/-! ## Random streams -/

namespace RandomBytes

/-- the bytes to come are the same -/
def SameAhead (r s : RandomBytes) : Prop := ∀ k, r.byte (r.taken + k) = s.byte (s.taken + k)

/-- the bytes to come as a stream of its own -/
def rest (r : RandomBytes) : RandomBytes := ⟨fun k => r.byte (r.taken + k), 0⟩

variable {r s : RandomBytes}

theorem SameAhead.refl (r : RandomBytes) : r.SameAhead r := fun _ => rfl

theorem sameAhead_rest (r : RandomBytes) : r.SameAhead r.rest := by
  intro k
  simp only [rest, Nat.zero_add]

theorem SameAhead.head (h : r.SameAhead s) : r.head = s.head := h 0

theorem SameAhead.tail (h : r.SameAhead s) : r.tail.SameAhead s.tail := by
  intro k
  have hk := h (1 + k)
  simp only [← Nat.add_assoc] at hk
  exact hk

end RandomBytes

/-- the same but for the random bytes that are taken already -/
structure Surroundings.Renewed (b c : Surroundings) : Prop where
  delay : b.delay = c.delay
  sound : b.sound = c.sound
  beeping : b.beeping = c.beeping
  random : b.random.SameAhead c.random

theorem Surroundings.Renewed.leaves {b c : Surroundings} (h : b.Renewed c) (i : Instruction) (r : Registers) :
    (i.leaves r b).Renewed (i.leaves r c) := by
  rcases i.leaves_cases r with ⟨d, hl⟩ | ⟨d, hl⟩ | hl | hl <;> rw [hl, hl]
  · exact { h with delay := rfl }
  · exact { h with sound := rfl }
  · exact { h with random := h.random.tail }
  · exact h

namespace Machine

/-! ## Histories -/

variable {m n : Machine} {r : RandomBytes}

/-- the same machine but for the random bytes that are taken already -/
def Renewed : Machine → Machine → Prop := Alike Surroundings.Renewed

theorem renewed_setRandom (h : m.random.SameAhead r) : Renewed m (m.setRandom r) := ⟨rfl, rfl, rfl, rfl, h⟩

theorem Renewed.exists_setRandom (h : Renewed m n) : ∃ r, m.random.SameAhead r ∧ n = m.setRandom r := by
  obtain ⟨hs, hd, ht, hb, hr⟩ := h
  refine ⟨n.random, hr, ?_⟩
  have hd : m.delay = n.delay := hd
  have ht : m.sound = n.sound := ht
  have hb : m.beeping = n.beeping := hb
  rw [hs]
  simp only [within, surroundings, setRandom, hd, ht, hb]

theorem cycle_renewed (h : Renewed m n) : m.cycle.Matches Renewed n.cycle :=
  cycle_alike (fun i r _ _ hbc => hbc.leaves i r) h h.related.random.head.symm (.inl h.related.delay.symm)

theorem perform_renewed (h : Renewed m n) (a : Action) : (m.perform a).Matches Renewed (n.perform a) := by
  obtain ⟨r, hr, rfl⟩ := h.exists_setRandom
  cases a with
  | cycle => exact (cycle_renewed h).map fun r => [r]
  | tick =>
    have hs : (m.setRandom r).sound = m.sound := rfl
    have hb : (m.setRandom r).beeping = m.beeping := rfl
    simp only [perform, tick, sing, silence, hs, hb]
    split_ifs <;> exact ⟨rfl, renewed_setRandom hr, rfl⟩
  | silence =>
    have hb : (m.setRandom r).beeping = m.beeping := rfl
    simp only [perform, silence, hb]
    split_ifs <;> exact ⟨rfl, renewed_setRandom hr, rfl⟩
  | reset | load rom =>
    have hb : (m.setRandom r).beeping = m.beeping := rfl
    simp only [perform, load, reset, silence, hb]
    split_ifs <;> exact ⟨rfl, renewed_setRandom hr, rfl⟩
  | press key =>
    simp only [perform, press]
    cases Keypad.press key <;> exact ⟨rfl, renewed_setRandom hr, rfl⟩
  | release key | clearKeys => exact ⟨rfl, renewed_setRandom hr, rfl⟩
  | setRandom s => exact ⟨rfl, renewed_setRandom (.refl s), rfl⟩

theorem run_renewed (h : Renewed m n) (actions : List Action) :
    (m.run actions).Matches Renewed (n.run actions) := by
  induction actions generalizing m n with
  | nil => exact ⟨rfl, h, rfl⟩
  | cons a rest ih => exact (perform_renewed h a).andThen fun reports s t hst => (ih hst).map (reports ++ ·)

/-! ## Loads -/

theorem load_events (m : Machine) (rom : Rom) :
    (m.load rom).events = (if m.beeping then [.log .toneOff, .stopBeep] else []) ++ [.clear] := by
  simp only [load, reset, silence_eq, Outcome.change, Outcome.andThen]

theorem load_empty (m : Machine) : m.load .empty = m.reset := by
  simp only [load, Rom.empty, Memory.write]
  rfl

/-- the load of a new machine with the same keypad and the same bytes to come -/
theorem load_renewed (m : Machine) (rom : Rom) (h : m.random.SameAhead r) :
    Renewed (m.load rom).state ({ powerOn r with keypad := m.keypad }.load rom).state := by
  rw [load_state, load_state]
  exact ⟨rfl, rfl, rfl, rfl, h⟩

/-- **A load starts afresh.** Whatever state it finds, it leaves the font, zeros up to `0x200`, the program and zeros
behind it, a new machine around them, the tone off and the display cleared; only the keypad and the random stream are
kept. A reset is the load of no program. And from a load on every history, with all its reports and events and all that
it does to the machine, is that of a new machine with the same rom, the same keypad and the same random bytes. -/
theorem load_starts_fresh (m : Machine) (rom : Rom) :
    let o := m.load rom
    o.state.memory.toList =
        Memory.font ++ List.replicate (0x200 - 80) 0 ++ rom.data ++ List.replicate (Rom.capacity - rom.size) 0 ∧
      (o.state.registers = Vector.replicate 16 0 ∧ o.state.index = 0 ∧ o.state.word = 0 ∧ o.state.stack = [] ∧
        o.state.delay = .zero ∧ o.state.sound = .zero ∧ o.state.pc = 0x200 ∧ o.state.awaiting = none ∧
        o.state.beeping = false ∧ o.state.screen = .blank) ∧
      (o.state.keypad = m.keypad ∧ o.state.random = m.random) ∧
      o.events = (if m.beeping then [.log .toneOff, .stopBeep] else []) ++ [.clear] ∧
      m.reset = m.load .empty ∧
      ∀ fresh : RandomBytes, m.random.SameAhead fresh → ∀ actions : List Action,
        (o.state.run actions).Matches Renewed
          (({ powerOn fresh with keypad := m.keypad }.load rom).state.run actions) := by
  intro o
  have ho : o.state = _ := m.load_state rom
  refine ⟨m.toList_load rom, ?_, ?_, m.load_events rom, m.load_empty.symm, fun fresh hf actions => ?_⟩
  · rw [ho]; exact ⟨rfl, rfl, rfl, rfl, rfl, rfl, rfl, rfl, rfl, rfl⟩
  · rw [ho]; exact ⟨rfl, rfl⟩
  · exact run_renewed (load_renewed m rom hf) actions

/-- a tone of nine ticks, a random byte, a byte written over the font, a key awaited -/
def spoiling : Rom := ⟨"", [0x60, 0x09, 0xF0, 0x18, 0xC1, 0xFF, 0xA0, 0x00, 0xF0, 0x55, 0xF2, 0x0A], by decide⟩

/-- a random byte -/
def drawing : Rom := ⟨"", [0xC0, 0xFF], by decide⟩

/-- after all that the second byte of the stream is the first one that a new machine takes -/
theorem drawing_after_spoiling :
    let m := (powerOn (.ofScript #[7, 9])).after
      [.load spoiling, .cycle, .cycle, .cycle, .cycle, .cycle, .cycle, .tick]
    let n := { powerOn m.random.rest with keypad := m.keypad }
    m.memory[0] = 9 ∧ m.beeping = true ∧ m.awaiting = some 2 ∧
      ((m.load drawing).state.run [.cycle, .tick]).Matches Renewed ((n.load drawing).state.run [.cycle, .tick]) ∧
      ((m.load drawing).state.run [.cycle, .tick]).state.registers.get 0 = 9 := by
  intro m n
  obtain ⟨-, -, -, -, -, h⟩ := load_starts_fresh m drawing
  have hm : m.memory[0] = 9 ∧ m.beeping = true ∧ m.awaiting = some 2 := by decide +kernel
  obtain ⟨hfont, htone, hwait⟩ := hm
  exact ⟨hfont, htone, hwait, h m.random.rest (RandomBytes.sameAhead_rest _) [.cycle, .tick], by decide +kernel⟩

end Machine

end ChipEight
