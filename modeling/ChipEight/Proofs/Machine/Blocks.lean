/-
Blocks of memory. `FX55` copies V0 to VX into the memory from `I` on, `FX65` copies as many bytes from there back, and
`FX33` writes the three decimal digits of VX there. Each goes well exactly if its block ends within the memory, so the
last block that it can use ends at the last byte, and none of them moves `I`.

Results:
- `write_read`, `read_write`: a block written with what stands there is no change, and one written is read back;
- `get_fill_firsts`, `firsts_fill`: the first registers from a block and as one;
- `execute_storeRegisters`, `execute_fillRegisters`, `execute_storeDigits`: all that the three instructions do;
- `block_round_trip`: registers come back from memory and memory from registers, the digits of a byte in V0 to V2.
-/
import ChipEight.Proofs.Machine.Draw

namespace ChipEight

/-! ## Memory -/

namespace Memory

theorem write_read (m : Memory) (start count : Nat) : m.write start (m.read start count) = m := by
  have hlen := m.length_read_le start count
  refine Vector.ext fun i hi => ?_
  rw [getElem_write _ _ _ _ hi]
  split_ifs with h
  · rw [m.getElem?_read (by omega), Nat.add_sub_cancel' h.1, Vector.getElem?_eq_getElem hi, Option.getD_some]
  · rfl

theorem read_write (m : Memory) {start : Nat} {bytes : List UInt8} (h : start + bytes.length ≤ 4096) :
    (m.write start bytes).read start bytes.length = bytes := by
  apply List.ext_getElem (length_read _ h)
  intro i hi hi'
  have hread : ((m.write start bytes).read start bytes.length)[i]? = some bytes[i] := by
    rw [getElem?_read _ hi', Vector.getElem?_eq_getElem (by omega), getElem_write _ _ _ _ (by omega),
      if_pos (by omega), Nat.add_sub_cancel_left, List.getElem?_eq_getElem hi', Option.getD_some]
  exact (List.getElem_eq_iff hi).2 hread

/-- only the bytes that are read count -/
theorem read_congr {m n : Memory} {start count : Nat}
    (h : ∀ k, start ≤ k → k < start + count → n[k]? = m[k]?) : n.read start count = m.read start count := by
  apply List.ext_getElem?
  intro i
  by_cases hi : i < count
  · rw [getElem?_read _ hi, getElem?_read _ hi, h _ (Nat.le_add_right _ _) (Nat.add_lt_add_left hi _)]
  · have hm := m.length_read_le start count
    have hn := n.length_read_le start count
    rw [List.getElem?_eq_none (by omega), List.getElem?_eq_none (by omega)]

end Memory

/-! ## Registers -/

namespace Registers

/-- the first registers as a block -/
def firsts (r : Registers) (count : Nat) : List UInt8 := r.toList.take count

theorem length_firsts (r : Registers) {count : Nat} (h : count ≤ 16) : (r.firsts count).length = count := by
  rw [firsts, List.length_take, Vector.length_toList, Nat.min_eq_left h]

theorem getElem?_firsts (r : Registers) {count : Nat} {j : Fin 16} (h : j.val < count) :
    (r.firsts count)[j.val]? = some (r.get j) := by
  rw [firsts, List.getElem?_take_of_lt h, Vector.getElem?_toList, Vector.getElem?_eq_getElem j.isLt]
  rfl

theorem get_fill_firsts (r s : Registers) {count : Nat} (h : count ≤ 16) (j : Fin 16) :
    (s.fill (r.firsts count)).get j = if j.val < count then r.get j else s.get j := by
  split_ifs with hj
  · rw [get_fill, getElem?_firsts r hj, Option.getD_some]
  · exact get_fill_of_le (by rw [length_firsts r h]; omega)

theorem firsts_fill (r : Registers) {bytes : List UInt8} (h : bytes.length ≤ 16) :
    (r.fill bytes).firsts bytes.length = bytes := by
  apply List.ext_getElem (length_firsts _ h)
  intro i hi hi'
  have hfirst := getElem?_firsts (r.fill bytes) (j := ⟨i, by omega⟩) hi'
  rw [get_fill, List.getElem?_eq_getElem hi', Option.getD_some] at hfirst
  exact (List.getElem_eq_iff hi).2 hfirst

end Registers

/-- each of the three is a digit, and together they are the number -/
theorem Machine.digits_of_decimalDigits {v h t o : UInt8} (hd : decimalDigits v = [h, t, o]) :
    h.toNat < 10 ∧ t.toNat < 10 ∧ o.toNat < 10 ∧ 100 * h.toNat + 10 * t.toNat + o.toNat = v.toNat := by
  have hv := v.toNat_lt
  have hh : (v / 100).toNat = v.toNat / 100 := UInt8.toNat_div _ _
  have ht : (v / 10 % 10).toNat = v.toNat / 10 % 10 := by rw [UInt8.toNat_mod, UInt8.toNat_div]; rfl
  have ho : (v % 10).toNat = v.toNat % 10 := UInt8.toNat_mod _ _
  cases hd
  omega

/-! ## Instructions -/

/-- how many bytes from `I` on an instruction copies, if that is what it does -/
def Instruction.block? : Instruction → Option Size
  | .storeDigits _ => some 3
  | .storeRegisters x | .fillRegisters x => some (x + 1)
  | _ => none

theorem Instruction.block_le {i : Instruction} {n : Size} (hi : i.Fits) (hb : i.block? = some n) : n.toNat ≤ 16 := by
  cases i with
  | storeDigits x => cases hb; decide
  | storeRegisters x | fillRegisters x =>
    cases hb
    rw [Machine.toNat_succ hi]
    exact hi
  | _ => cases hb

namespace Machine

variable {m : Machine} {x : Size}

theorem execute_storeRegisters (hx : x < 16) (hfit : m.index.toNat + (x.toNat + 1) ≤ 4096) :
    m.execute (.storeRegisters x) =
      ⟨.ok .plain, { m with memory := m.memory.write m.index.toNat (m.registers.firsts (x.toNat + 1)) }, []⟩ := by
  have hwindow : window m.index.toUInt64 (x + 1) = .ok () := window_of_le (by rw [toNat_succ hx]; exact hfit)
  simp only [execute_eq, effect, hwindow, Registers.lookup_of_lt hx, bind, Except.bind]
  rfl

theorem execute_fillRegisters (hx : x < 16) (hfit : m.index.toNat + (x.toNat + 1) ≤ 4096) :
    m.execute (.fillRegisters x) =
      ⟨.ok .plain, { m with registers := m.registers.fill (m.memory.read m.index.toNat (x.toNat + 1)) }, []⟩ := by
  have hwindow : window m.index.toUInt64 (x + 1) = .ok () := window_of_le (by rw [toNat_succ hx]; exact hfit)
  simp only [execute_eq, effect, hwindow, Registers.lookup_of_lt hx, bind, Except.bind]
  rfl

theorem execute_storeDigits (hx : x < 16) (hfit : m.index.toNat + 3 ≤ 4096) :
    m.execute (.storeDigits x) =
      ⟨.ok .plain, { m with
        memory := m.memory.write m.index.toNat (decimalDigits (m.registers.get ⟨x.toNat, hx⟩)) }, []⟩ := by
  have hwindow : window m.index.toUInt64 3 = .ok () := window_of_le hfit
  simp only [execute_eq, effect, hwindow, Registers.lookup_of_lt hx, bind, Except.bind]
  rfl

/-- a block that ends behind the memory is refused, and nothing is copied -/
theorem execute_block_outside {i : Instruction} {n : Size} (hi : i.Fits) (hb : i.block? = some n)
    (hout : 4096 < m.index.toNat + n.toNat) :
    m.execute i = ⟨.error (.error (.memoryAccess m.index.toUInt64 n)), m, []⟩ := by
  have hlt := m.index.toNat_lt
  have hn := Instruction.block_le hi hb
  have hwindow := window_outside hout (by omega)
  refine execute_of_refused hi ?_
  cases i with
  | storeDigits x =>
    cases hb
    simp only [effect, hwindow, Registers.lookup_of_lt (show x < 16 from hi), bind, Except.bind]
  | storeRegisters x | fillRegisters x =>
    cases hb
    simp only [effect, hwindow, bind, Except.bind]
  | _ => cases hb

/-- how far the three instructions get, and that `I` stays -/
theorem execute_block {i : Instruction} {n : Size} (hi : i.Fits) (hb : i.block? = some n) :
    ((m.execute i).value = .ok .plain ↔ m.index.toNat + n.toNat ≤ 4096) ∧ (m.execute i).state.index = m.index := by
  by_cases hfit : m.index.toNat + n.toNat ≤ 4096
  · suffices h : (m.execute i).value = .ok .plain ∧ (m.execute i).state.index = m.index from
      ⟨iff_of_true h.1 hfit, h.2⟩
    cases i with
    | storeDigits x =>
      cases hb
      rw [execute_storeDigits hi hfit]
      exact ⟨rfl, rfl⟩
    | storeRegisters x =>
      cases hb
      rw [toNat_succ hi] at hfit
      rw [execute_storeRegisters hi hfit]
      exact ⟨rfl, rfl⟩
    | fillRegisters x =>
      cases hb
      rw [toNat_succ hi] at hfit
      rw [execute_fillRegisters hi hfit]
      exact ⟨rfl, rfl⟩
    | _ => cases hb
  · rw [execute_block_outside hi hb (by omega)]
    exact ⟨iff_of_false nofun hfit, rfl⟩

/-! ## There and back -/

/-- from a block that still holds what was stored the same registers come back, and the others stay -/
theorem fill_of_stored {n : Machine} (hx : x < 16) (hfit : m.index.toNat + (x.toNat + 1) ≤ 4096)
    (hI : n.index = m.index)
    (hn : ∀ k, m.index.toNat ≤ k → k ≤ m.index.toNat + x.toNat →
      n.memory[k]? = (m.execute (.storeRegisters x)).state.memory[k]?) :
    (n.execute (.fillRegisters x)).state.registers = n.registers.fill (m.registers.firsts (x.toNat + 1)) := by
  have hx16 : x.toNat < 16 := hx
  have hlen : (m.registers.firsts (x.toNat + 1)).length = x.toNat + 1 := Registers.length_firsts _ hx16
  have hread : n.memory.read m.index.toNat (x.toNat + 1) = m.registers.firsts (x.toNat + 1) :=
    calc n.memory.read m.index.toNat (x.toNat + 1)
        = (m.execute (.storeRegisters x)).state.memory.read m.index.toNat (x.toNat + 1) :=
          Memory.read_congr fun k hk hlt => hn k hk (by omega)
      _ = (m.memory.write m.index.toNat (m.registers.firsts (x.toNat + 1))).read m.index.toNat (x.toNat + 1) := by
          rw [execute_storeRegisters hx hfit]
      _ = m.registers.firsts (x.toNat + 1) := by
          have hroom : m.index.toNat + (m.registers.firsts (x.toNat + 1)).length ≤ 4096 := by rw [hlen]; exact hfit
          have hback := m.memory.read_write hroom
          rwa [hlen] at hback
  rw [execute_fillRegisters hx (by rw [hI]; exact hfit), hI, hread]

theorem store_of_filled (hx : x < 16) (hfit : m.index.toNat + (x.toNat + 1) ≤ 4096) :
    ((m.execute (.fillRegisters x)).state.execute (.storeRegisters x)).state.memory = m.memory := by
  have hx16 : x.toNat < 16 := hx
  set block := m.memory.read m.index.toNat (x.toNat + 1)
  have hlen : block.length = x.toNat + 1 := m.memory.length_read hfit
  have hfirsts : (m.registers.fill block).firsts (x.toNat + 1) = block := by
    rw [← hlen]
    exact Registers.firsts_fill _ (by omega)
  have hfilled := execute_fillRegisters hx hfit
  set n := (m.execute (.fillRegisters x)).state
  have hI : n.index = m.index := congrArg (·.state.index) hfilled
  have hmem : n.memory = m.memory := congrArg (·.state.memory) hfilled
  have hregisters : n.registers = m.registers.fill block := congrArg (·.state.registers) hfilled
  calc (n.execute (.storeRegisters x)).state.memory
      = n.memory.write n.index.toNat (n.registers.firsts (x.toNat + 1)) :=
        congrArg (·.state.memory) (execute_storeRegisters hx (by rw [hI]; exact hfit))
    _ = m.memory.write m.index.toNat block := by rw [hI, hmem, hregisters, hfirsts]
    _ = m.memory := m.memory.write_read _ _

/-- of a block that starts with the digits of a byte, V0 to V2 get these -/
theorem fill_of_digits {y : Size} (hx : x < 16) (hx2 : 2 ≤ x.toNat) (hfit : m.index.toNat + (x.toNat + 1) ≤ 4096)
    (hy : y < 16) :
    let n := (m.execute (.storeDigits y)).state
    let r := (n.execute (.fillRegisters x)).state.registers
    decimalDigits (m.registers.get ⟨y.toNat, hy⟩) = [r.get 0, r.get 1, r.get 2] := by
  intro n r
  set digits := decimalDigits (m.registers.get ⟨y.toNat, hy⟩)
  have hlen : digits.length = 3 := rfl
  have hstored := execute_storeDigits hy (show m.index.toNat + 3 ≤ 4096 by omega)
  have hI : n.index = m.index := congrArg (·.state.index) hstored
  have hmem : n.memory = m.memory.write m.index.toNat digits := congrArg (·.state.memory) hstored
  have hr : r = n.registers.fill (n.memory.read n.index.toNat (x.toNat + 1)) :=
    congrArg (·.state.registers) (execute_fillRegisters hx (by rw [hI]; exact hfit))
  have hget (j : Fin 16) (hj : j.val < digits.length) : digits[j.val] = r.get j := by
    rw [hr, hI, hmem, Registers.get_fill, Memory.getElem?_read _ (by omega), Vector.getElem?_eq_getElem (by omega),
      Memory.getElem_write _ _ _ _ (by omega), if_pos (by omega), Nat.add_sub_cancel_left,
      List.getElem?_eq_getElem hj]
    rfl
  rw [← hget 0 (Nat.zero_lt_succ 2), ← hget 1 (Nat.lt_add_of_pos_right Nat.two_pos), ← hget 2 (Nat.lt_succ_self 2)]
  rfl

/-- **Blocks go back and forth.** Each of `FX33`, `FX55` and `FX65` goes well exactly if its block ends within the
memory; otherwise it reports the block and changes nothing, and in no case does it move `I`. For an X with a block from
V0 to VX that does:

- What `FX55` stored comes back with `FX65`, whatever became of the registers and of the rest of the memory in between;
  the registers behind VX stay as they were just before.
- `FX55` writes back what `FX65` found, and the memory is as it was.
- The digits that `FX33` stores of any register go to V0, V1 and V2, if X is at least 2. -/
theorem block_round_trip (m : Machine) {x : Size} (hx : x < 16) :
    (∀ (i : Instruction) (n : Size), i.Fits → i.block? = some n →
      ((m.execute i).value = .ok .plain ↔ m.index.toNat + n.toNat ≤ 4096) ∧
      (4096 < m.index.toNat + n.toNat →
        m.execute i = ⟨.error (.error (.memoryAccess m.index.toUInt64 n)), m, []⟩) ∧
      (m.execute i).state.index = m.index) ∧
    (m.index.toNat + x.toNat + 1 ≤ 4096 →
      let stored := m.execute (.storeRegisters x)
      let filled := m.execute (.fillRegisters x)
      (stored.value = .ok .plain ∧
        ∀ n : Machine, n.index = stored.state.index →
          (∀ k, m.index.toNat ≤ k → k ≤ m.index.toNat + x.toNat → n.memory[k]? = stored.state.memory[k]?) →
          let o := n.execute (.fillRegisters x)
          o.value = .ok .plain ∧
          ∀ j, o.state.registers.get j = if j.val ≤ x.toNat then m.registers.get j else n.registers.get j) ∧
      (filled.value = .ok .plain ∧
        let o := filled.state.execute (.storeRegisters x)
        o.value = .ok .plain ∧ o.state.memory = m.memory) ∧
      (2 ≤ x.toNat → ∀ (y : Size) (hy : y < 16),
        let converted := m.execute (.storeDigits y)
        let o := converted.state.execute (.fillRegisters x)
        converted.value = .ok .plain ∧ o.value = .ok .plain ∧
        ∃ h t u : UInt8,
          (o.state.registers.get 0 = h ∧ o.state.registers.get 1 = t ∧ o.state.registers.get 2 = u) ∧
          (h.toNat < 10 ∧ t.toNat < 10 ∧ u.toNat < 10) ∧
          100 * h.toNat + 10 * t.toNat + u.toNat = (m.registers.get ⟨y.toNat, hy⟩).toNat)) := by
  have hcount : x.toNat + 1 ≤ 16 := hx
  have hblock : (x + 1).toNat = x.toNat + 1 := toNat_succ hx
  refine ⟨fun i n hi hb => ?_, fun hfit => ?_⟩
  · obtain ⟨hvalue, hindex⟩ := execute_block (m := m) hi hb
    exact ⟨hvalue, execute_block_outside hi hb, hindex⟩
  have hstore {n : Machine} (hI : n.index = m.index) :
      (n.execute (.storeRegisters x)).value = .ok .plain ∧ (n.execute (.fillRegisters x)).value = .ok .plain := by
    have hfit : n.index.toNat + (x + 1).toNat ≤ 4096 := by rw [hI, hblock]; exact hfit
    exact ⟨(execute_block (i := .storeRegisters x) hx rfl).1.2 hfit,
      (execute_block (i := .fillRegisters x) hx rfl).1.2 hfit⟩
  intro stored filled
  refine ⟨⟨(hstore rfl).1, ?_⟩, ⟨(hstore rfl).2, ?_, store_of_filled hx hfit⟩, ?_⟩
  · intro n hI hn o
    have hI : n.index = m.index := hI.trans (execute_block (i := .storeRegisters x) hx rfl).2
    refine ⟨(hstore hI).2, fun j => ?_⟩
    have ho : o.state.registers = n.registers.fill (m.registers.firsts (x.toNat + 1)) := fill_of_stored hx hfit hI hn
    rw [ho, Registers.get_fill_firsts _ _ hcount]
    simp only [Nat.lt_succ_iff]
  · exact (hstore (execute_block (i := .fillRegisters x) hx rfl).2).1
  · intro hx2 y hy converted o
    obtain ⟨hh, ht, hu, hsum⟩ := digits_of_decimalDigits (fill_of_digits hx hx2 hfit hy)
    have hI : converted.state.index = m.index := (execute_block (i := .storeDigits y) hy rfl).2
    have hshort : m.index.toNat + (3 : Size).toNat ≤ 4096 := show m.index.toNat + 3 ≤ 4096 by omega
    have hconverted : converted.value = .ok .plain := (execute_block (i := .storeDigits y) hy rfl).1.2 hshort
    exact ⟨hconverted, (hstore hI).2, _, _, _, ⟨rfl, rfl, rfl⟩, ⟨hh, ht, hu⟩, hsum⟩

/-- 7, 9 and 251 in V0 to V2, and `I` at the last place for three bytes -/
def lastBlock : Rom := ⟨"", [0x60, 0x07, 0x61, 0x09, 0x62, 0xFB, 0xAF, 0xFD], by decide⟩

/-- the block comes back after all registers and the program are overwritten; the digits of 251 fit there too, and a
block of four bytes does not -/
theorem lastBlock_round_trip :
    let m := (powerOn (.ofScript #[])).after [.load lastBlock, .cycle, .cycle, .cycle, .cycle]
    let stored := m.execute (.storeRegisters 2)
    let n := { stored.state with
      registers := Vector.replicate 16 1
      memory := stored.state.memory.write 0x200 lastBlock.data.reverse }
    let o := n.execute (.fillRegisters 2)
    let digits := (m.execute (.storeDigits 2)).state.execute (.fillRegisters 2)
    m.index.toNat + 3 = 4096 ∧ stored.value = .ok .plain ∧ o.value = .ok .plain ∧
      (o.state.registers.get 0 = 7 ∧ o.state.registers.get 1 = 9 ∧ o.state.registers.get 2 = 251 ∧
        o.state.registers.get 3 = 1) ∧
      (digits.state.registers.get 0 = 2 ∧ digits.state.registers.get 1 = 5 ∧ digits.state.registers.get 2 = 1) ∧
      m.execute (.storeRegisters 3) = ⟨.error (.error (.memoryAccess 0xFFD 4)), m, []⟩ := by
  intro m stored n o digits
  have hm : m.index = 0xFFD ∧ m.registers.get 0 = 7 ∧ m.registers.get 1 = 9 ∧ m.registers.get 2 = 251 := by
    decide +kernel
  obtain ⟨hI, h0, h1, h2⟩ := hm
  -- which run it was is settled by now
  clear_value m
  have hlast : m.index.toNat + 3 = 4096 := by rw [hI]; rfl
  obtain ⟨hends, htrip⟩ := block_round_trip m (x := 2) (by decide)
  obtain ⟨⟨hstored, hback⟩, -, hdigits⟩ := htrip (le_of_eq hlast)
  have hsame : ∀ k, m.index.toNat ≤ k → k ≤ m.index.toNat + (2 : Size).toNat →
      n.memory[k]? = stored.state.memory[k]? := by
    intro k hk hk'
    have hlt : k < 4096 := Nat.lt_of_le_of_lt hk' (by rw [hI]; decide)
    have hbehind : 0x208 ≤ k := le_trans (by rw [hI]; decide) hk
    rw [Vector.getElem?_eq_getElem hlt, Vector.getElem?_eq_getElem hlt]
    exact congrArg some (Memory.getElem_write_of_outside hlt fun h => Nat.not_lt_of_le hbehind h.2)
  obtain ⟨ho, hregisters⟩ := hback n rfl hsame
  obtain ⟨-, -, h, t, u, ⟨hh, ht, hu⟩, ⟨-, ht10, hu10⟩, hsum⟩ := hdigits (by decide) 2 (by decide)
  have hsum : 100 * h.toNat + 10 * t.toNat + u.toNat = 251 := hsum.trans (congrArg UInt8.toNat h2)
  refine ⟨hlast, hstored, ho, ⟨?_, ?_, ?_, ?_⟩, ⟨hh.trans ?_, ht.trans ?_, hu.trans ?_⟩, ?_⟩
  · exact (hregisters 0).trans h0
  · exact (hregisters 1).trans h1
  · exact (hregisters 2).trans h2
  · exact hregisters 3
  · exact UInt8.toNat_inj.1 (show h.toNat = 2 by omega)
  · exact UInt8.toNat_inj.1 (show t.toNat = 5 by omega)
  · exact UInt8.toNat_inj.1 (show u.toNat = 1 by omega)
  · have hout := (hends (.storeRegisters 3) 4 (show (3 : Size) < 16 by decide) rfl).2.1
    rw [hI] at hout
    exact hout (by decide)

end Machine

end ChipEight
