/-
Programs in memory. A program is written as the words of its instructions, each high byte first; a rom holds up to 1792
of them, the last one at `0xFFE`.

Results:
- `copyToMemory_font`, `copyToMemory_rom`: the copies of a reset and a load are within the memory, for every rom;
- `getElem_load`: from `0x200` on the memory holds the rom and zeros behind it;
- `read_load`: so the `k`-th word there is made of bytes `2k` and `2k + 1` of the rom, a missing one read as zero;
- `program_round_trip`: written instructions are read back at every place, whatever ran before, a program that does not
  fit is refused, and a loaded word is either the word of the instruction it decodes to, or of none.
-/
import ChipEight.Proofs.Machine.Fetch
import ChipEight.Proofs.Machine.Lifecycle

namespace ChipEight

/-! ## Words of a rom -/

theorem Rom.ofData_eq_ok_iff {name : String} {data : List UInt8} {rom : Rom} :
    ofData name data = .ok rom ↔ rom.name = name ∧ rom.data = data := by
  unfold ofData
  split_ifs with h
  · refine ⟨fun hr => ?_, fun ⟨hn, hd⟩ => ?_⟩
    · cases hr; exact ⟨rfl, rfl⟩
    · cases rom; cases hn; cases hd; rfl
  · exact ⟨nofun, fun ⟨_, hd⟩ => absurd rom.data_le_capacity (hd ▸ h)⟩

/-- the `k`-th word of a rom, zeros behind its end -/
def Rom.word (rom : Rom) (k : Nat) : Word := .ofBytes (rom.data[2 * k]?.getD 0) (rom.data[2 * k + 1]?.getD 0)

/-! ## The memory after a load -/

namespace Handler

theorem copyToMemory_font (m : Machine) :
    copyToMemory ⟨0, .ofNat Memory.font.length⟩ (pure Memory.font) m =
      .quiet (.ok ()) { m with memory := m.memory.loadFont } := by
  have hf : 0 + Memory.font.length ≤ 4096 := by decide
  exact copyToMemory_of_fits hf

/-- the copy that ends a load fails for no rom -/
theorem copyToMemory_rom (m : Machine) (rom : Rom) :
    copyToMemory ⟨.ofNat Memory.programStart, .ofNat (Memory.programStart + rom.data.length)⟩ (pure rom.data)
      m.reset.state = .quiet (.ok ()) (m.load rom).state := by
  have hcap : Memory.programStart + Rom.capacity = 4096 := rfl
  have hle := rom.data_le_capacity
  exact copyToMemory_of_fits (by omega)

end Handler

theorem Word.read_memory (mem : Memory) {p : Nat} (h : p + 1 < 4096) :
    Word.read mem.toArray (.ofNat p) = .ok (.ofBytes mem[p] mem[p + 1]) := by
  have hp : (UInt64.ofNat p).toNat = p := by rw [UInt64.toNat_ofNat']; omega
  have hs : (UInt64.ofNat p).toNat + 1 < mem.toArray.size := by simpa only [hp, mem.size_toArray] using h
  rw [Word.read_of_lt (by omega) hs]
  simp only [hp, Vector.getElem_toArray]

theorem Memory.getElem_initial {i : Nat} (h : i < 4096) (hi : 80 ≤ i) : Memory.initial[i] = 0 := by
  have hf : font.length = 80 := rfl
  rw [initial, loadFont, getElem_write, if_neg (by omega), Vector.getElem_replicate]

namespace Machine

theorem getElem_load (m : Machine) (rom : Rom) {i : Nat} (h : i < 4096) (hi : 0x200 ≤ i) :
    (m.load rom).state.memory[i] = rom.data[i - 0x200]?.getD 0 := by
  have hmem : (m.load rom).state.memory = Memory.initial.write Memory.programStart rom.data := by rw [load_state]
  simp only [hmem, Memory.getElem_write, Memory.programStart]
  split_ifs with hd
  · rfl
  · rw [List.getElem?_eq_none (by omega), Memory.getElem_initial h (by omega)]; rfl

theorem read_load (m : Machine) (rom : Rom) {k : Nat} (hk : k < 1792) :
    Word.read (m.load rom).state.memory.toArray (.ofNat (0x200 + 2 * k)) = .ok (rom.word k) := by
  have hlt : 0x200 + 2 * k + 1 < 4096 := by omega
  have e0 : 0x200 + 2 * k - 0x200 = 2 * k := Nat.add_sub_cancel_left ..
  have e1 : 0x200 + 2 * k + 1 - 0x200 = 2 * k + 1 := Nat.add_sub_cancel_left (0x200) (2 * k + 1)
  rw [Word.read_memory _ hlt, getElem_load m rom _ (Nat.le_add_right ..),
    getElem_load m rom hlt (Nat.le_add_right 0x200 (2 * k + 1)), e0, e1, Rom.word]

end Machine

/-! ## Programs -/

namespace Instruction

/-- the bytes of a program -/
def program (is : List Instruction) : List UInt8 := is.flatMap fun i => i.encode.bytes

theorem length_program (is : List Instruction) : (program is).length = 2 * is.length := by
  induction is with
  | nil => rfl
  | cons i is ih =>
    have hb : i.encode.bytes.length = 2 := rfl
    simp only [program, List.flatMap_cons, List.length_append, List.length_cons] at ih ⊢
    omega

theorem getElem?_program {is : List Instruction} {k : Nat} (hk : k < is.length) :
    (program is)[2 * k]? = is[k].encode.bytes[0]? ∧ (program is)[2 * k + 1]? = is[k].encode.bytes[1]? := by
  induction is generalizing k with
  | nil => cases hk
  | cons i is ih =>
    cases k with
    | zero => exact ⟨rfl, rfl⟩
    | succ k => exact ih (Nat.lt_of_succ_lt_succ hk)

theorem ofBytes_bytes (w : Word) : Word.ofBytes (w.bytes[0]?.getD 0) (w.bytes[1]?.getD 0) = w := by
  have hw := w.toNat_lt
  rw [← UInt16.toNat_inj, Word.toNat_ofBytes]
  simp only [Word.bytes, List.getElem?_cons_zero, List.getElem?_cons_succ, Option.getD_some, UInt8.toNat_ofNat']
  omega

theorem decode_total (w : Word) :
    (∃ i, decode w = .ok i ∧ i.Fits ∧ i.encode = w) ∨
      (decode w = .error (.unknown w) ∧ ∀ i : Instruction, i.Fits → i.encode ≠ w) := by
  cases hd : decode w with
  | ok i =>
    obtain ⟨hi, hw⟩ := decode_eq_ok_iff.1 hd
    exact .inl ⟨i, rfl, hi, hw⟩
  | error e =>
    obtain ⟨rfl, hi⟩ := decode_eq_error_iff.1 hd
    exact .inr ⟨rfl, hi⟩

end Instruction

namespace Machine

open Instruction (program length_program)

/-- the `k`-th word of a written program is that of its `k`-th instruction -/
theorem word_program {rom : Rom} {is : List Instruction} (hd : rom.data = program is) {k : Nat}
    (hk : k < is.length) : rom.word k = is[k].encode := by
  obtain ⟨h0, h1⟩ := Instruction.getElem?_program hk
  rw [Rom.word, hd, h0, h1]
  exact Instruction.ofBytes_bytes _

/-- **Programs survive being written, loaded and read.** A program of at most 1792 instructions that fit is a rom, and
after a load into any machine its `k`-th instruction is read back at `0x200 + 2k`; a longer one is refused. Conversely
every word of a loaded rom, the last byte of an odd one followed by zero, is the word of the instruction that it
decodes to, or it is unknown and the word of no instruction that fits. -/
theorem program_round_trip (name : String) (m : Machine) :
    (∀ is : List Instruction, (∀ i ∈ is, i.Fits) →
      (is.length ≤ 1792 → ∃ rom, Rom.ofData name (program is) = .ok rom ∧
        ∀ k (hk : k < is.length), ∃ w,
          Word.read (m.load rom).state.memory.toArray (.ofNat (0x200 + 2 * k)) = .ok w ∧
          Instruction.decode w = .ok is[k]) ∧
      (1792 < is.length → Rom.ofData name (program is) = .error (.tooLarge (2 * is.length) 3584))) ∧
    ∀ data rom, Rom.ofData name data = .ok rom → ∀ k (hk : 2 * k < data.length), ∃ w,
      Word.read (m.load rom).state.memory.toArray (.ofNat (0x200 + 2 * k)) = .ok w ∧
      w.toNat = data[2 * k].toNat * 256 + (data[2 * k + 1]?.getD 0).toNat ∧
      ((∃ i, Instruction.decode w = .ok i ∧ i.Fits ∧ i.encode = w) ∨
        (Instruction.decode w = .error (.unknown w) ∧ ∀ i : Instruction, i.Fits → i.encode ≠ w)) := by
  have hcap : Rom.capacity = 3584 := rfl
  refine ⟨fun is hf => ⟨fun hl => ?_, fun hl => ?_⟩, fun data rom hr k hk => ?_⟩
  · have hsize : (program is).length ≤ Rom.capacity := by rw [length_program]; omega
    refine ⟨⟨name, program is, hsize⟩, Rom.ofData_eq_ok_iff.2 ⟨rfl, rfl⟩, fun k hk => ⟨is[k].encode, ?_, ?_⟩⟩
    · rw [read_load m _ (by omega), word_program rfl hk]
    · exact Instruction.decode_eq_ok_iff.2 ⟨hf _ (List.getElem_mem hk), rfl⟩
  · have hsize : ¬ (program is).length ≤ Rom.capacity := by rw [length_program]; omega
    rw [Rom.ofData, dif_neg hsize, length_program, hcap]
  · obtain ⟨-, rfl⟩ := Rom.ofData_eq_ok_iff.1 hr
    have hle := rom.data_le_capacity
    refine ⟨rom.word k, read_load m rom (by omega), ?_, Instruction.decode_total _⟩
    rw [Rom.word, Word.toNat_ofBytes, List.getElem?_eq_getElem hk, Option.getD_some]

end Machine

end ChipEight
