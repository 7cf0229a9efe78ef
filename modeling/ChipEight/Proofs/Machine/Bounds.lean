/-
Bounds at the end of the word range. Two checks add at 64 bits before they compare: the one for the second byte of a
word, and the one for the end of the block that a sprite is read from. As long as the sum does not wrap around, both
are exact. A sum that does is small again and passes, and what comes next is outside of the contract, where the pointer
or the length had to be refused. Only a host gets there: the counter has 16 bits, and a sprite of a program at most
fifteen rows.

Results:
- `read_cases`, `read_exact_iff`: what reading a word comes to, for every pointer, and where that is what it should be;
- `window_of_wrapped`, `execute_draw_refused`: a block whose end wraps around, and a sprite that is not drawn;
- `execute_draw_exact_iff`: the same for sprites of every height;
- `bounds_exact_unless_wrapped`: both checks, and what they let pass;
- `wrapped_sums_pass`: an argument for each of them that should be refused and is not.
-/
import ChipEight.Proofs.Machine.Draw

namespace ChipEight

/-! ## Words -/

namespace Word

variable {data : Array UInt8} {p : Size}

/-- Behind the last pointer comes position 0, so the check passes if there is any byte. -/
theorem read_last (hp : p.toNat + 1 = 2 ^ 64) (hs : data.size < 2 ^ 64) :
    read data p = if data.size = 0 then .error (.error (.outside p data.size)) else .error .contract := by
  have hsecond : (p + 1).toNat = 0 := by
    have hsum : (p + 1).toNat = (p.toNat + 1) % 2 ^ 64 := UInt64.toNat_add p 1
    rw [hsum, hp, Nat.mod_self]
  -- the first byte is looked up at the pointer itself, behind every byte that there is
  have hfirst : data[p.toNat]? = none := Array.getElem?_eq_none (by omega)
  unfold read
  rw [hsecond, hfirst]
  by_cases h0 : data.size = 0
  · rw [if_neg (by omega), if_pos h0]
  · rw [if_pos (by omega), if_neg h0]

/-- every way a read can go, with what tells it from the others -/
theorem read_cases (data : Array UInt8) (p : Size) (hs : data.size < 2 ^ 64) :
    (∃ h : p.toNat + 2 ≤ data.size, read data p = .ok (ofBytes data[p.toNat] data[p.toNat + 1])) ∨
    (data.size < p.toNat + 2 ∧ (p.toNat + 1 < 2 ^ 64 ∨ data.size = 0) ∧
      read data p = .error (.error (.outside p data.size))) ∨
    (p.toNat + 1 = 2 ^ 64 ∧ data.size ≠ 0 ∧ read data p = .error .contract) := by
  have hp := p.toNat_lt
  rcases Nat.lt_or_eq_of_le (show p.toNat + 1 ≤ 2 ^ 64 by omega) with hlt | hlast
  · by_cases h : p.toNat + 2 ≤ data.size
    · exact .inl ⟨h, read_of_lt hlt h⟩
    · exact .inr (.inl ⟨by omega, .inl hlt, read_of_le hlt (by omega)⟩)
  · have hread := read_last hlast hs
    split_ifs at hread with h0
    · exact .inr (.inl ⟨by omega, .inr h0, hread⟩)
    · exact .inr (.inr ⟨hlast, h0, hread⟩)

/-- the word is read if both bytes are there and refused if not, unless the pointer to the second wraps around -/
theorem read_exact_iff (data : Array UInt8) (p : Size) (hs : data.size < 2 ^ 64) :
    (read data p =
        if h : p.toNat + 2 ≤ data.size then .ok (ofBytes data[p.toNat] data[p.toNat + 1])
        else .error (.error (.outside p data.size))) ↔
      p.toNat + 1 < 2 ^ 64 ∨ data.size = 0 := by
  rcases read_cases data p hs with ⟨h, hread⟩ | ⟨hout, hsum, hread⟩ | ⟨hlast, h0, hread⟩
  · rw [hread, dif_pos h]
    exact iff_of_true rfl (.inl (by omega))
  · rw [hread, dif_neg (by omega)]
    exact iff_of_true rfl hsum
  · rw [hread, dif_neg (by omega)]
    exact iff_of_false nofun (by omega)

end Word

/-! ## Sprites -/

namespace Machine

variable {m : Machine} {x y n : Size}

/-- an end that wrapped around lies before the start, so it passes the bound -/
theorem window_of_wrapped {index : UInt16} (hI : index.toNat ≤ 4096) (hn : 2 ^ 64 ≤ index.toNat + n.toNat) :
    window index.toUInt64 n = .error .contract := by
  have hlt := n.toNat_lt
  have hstart : index.toUInt64.toNat = index.toNat := by simp
  have hend : (index.toUInt64 + n).toNat = index.toNat + n.toNat - 2 ^ 64 := by
    rw [UInt64.toNat_add, hstart]
    omega
  have hpasses : (index.toUInt64 + n).toNat ≤ Memory.size := by
    rw [hend, Memory.size]
    omega
  have hback : ¬ index.toUInt64 ≤ index.toUInt64 + n := by
    rw [UInt64.le_iff_toNat_le, hend, hstart]
    omega
  rw [window, if_pos hpasses, if_neg hback]

/-- the block is looked up before anything is drawn or written -/
theorem execute_draw_refused {f : Failure CycleError} (hx : x < 16) (hy : y < 16)
    (hf : window m.index.toUInt64 n = .error f) : m.execute (.draw x y n) = ⟨.error f, m, []⟩ := by
  refine execute_of_error ?_
  simp only [effect, Registers.lookup_of_lt hx, Registers.lookup_of_lt hy, hf, bind, Except.bind]

theorem execute_draw_outside (hx : x < 16) (hy : y < 16) (hout : 4096 < m.index.toNat + n.toNat)
    (hn : m.index.toNat + n.toNat < 2 ^ 64) :
    m.execute (.draw x y n) = ⟨.error (.error (.memoryAccess m.index.toUInt64 n)), m, []⟩ :=
  execute_draw_refused hx hy (window_outside hout hn)

theorem execute_draw_wrapped (hx : x < 16) (hy : y < 16) (hI : m.index.toNat ≤ 0xFFF)
    (hn : 2 ^ 64 ≤ m.index.toNat + n.toNat) : m.execute (.draw x y n) = ⟨.error .contract, m, []⟩ :=
  execute_draw_refused hx hy (window_of_wrapped (by omega) hn)

/-- the block is drawn if it lies within the memory and refused if not, unless its end wraps around -/
theorem execute_draw_exact_iff (hx : x < 16) (hy : y < 16) (hI : m.index.toNat ≤ 0xFFF) :
    let vx := m.registers.get ⟨x.toNat, hx⟩
    let vy := m.registers.get ⟨y.toNat, hy⟩
    let sprite := m.memory.read m.index.toNat n.toNat
    let hit := m.screen.collides sprite vx.toNat vy.toNat
    (m.execute (.draw x y n) =
        if m.index.toNat + n.toNat ≤ 4096 then
          ⟨.ok .draw, { m with
            screen := m.screen.draw sprite vx.toNat vy.toNat
            registers := m.registers.put 15 (Registers.ofBool hit) }, [.draw vx vy sprite]⟩
        else ⟨.error (.error (.memoryAccess m.index.toUInt64 n)), m, []⟩) ↔
      m.index.toNat + n.toNat < 2 ^ 64 := by
  intro vx vy sprite hit
  by_cases hfit : m.index.toNat + n.toNat ≤ 4096
  · rw [if_pos hfit]
    exact iff_of_true (execute_draw hx hy hfit) (by omega)
  · rw [if_neg hfit]
    by_cases hn : m.index.toNat + n.toNat < 2 ^ 64
    · exact iff_of_true (execute_draw_outside hx hy (by omega) hn) hn
    · refine iff_of_false (fun hexact => ?_) hn
      rw [execute_draw_wrapped hx hy hI (by omega)] at hexact
      cases congrArg Outcome.value hexact

/-- **The bounds are exact unless a sum wraps around.** The word at a pointer is read, its high byte first, if both of
its bytes are there, and is otherwise refused with the pointer and the number of bytes: for every pointer but the last
one of all, and for that one too if there are no bytes. With `I` in the memory, a sprite is drawn from the bytes at `I`
on if all of its rows lie within the memory, and is otherwise refused with `I` and its height, and nothing changes: for
every height that leaves its end within the word range.

In all other cases the sum passes for one within the bound, and the bytes that are not there are looked up outside of
the contract; the machine is as before also then. -/
theorem bounds_exact_unless_wrapped (data : Array UInt8) (p : Size) (hs : data.size < 2 ^ 64) (m : Machine)
    (x y n : Size) (hx : x < 16) (hy : y < 16) (hI : m.index.toNat ≤ 0xFFF) :
    let vx := m.registers.get ⟨x.toNat, hx⟩
    let vy := m.registers.get ⟨y.toNat, hy⟩
    let sprite := m.memory.read m.index.toNat n.toNat
    let hit := m.screen.collides sprite vx.toNat vy.toNat
    ((Word.read data p =
        if h : p.toNat + 2 ≤ data.size then .ok (.ofBytes data[p.toNat] data[p.toNat + 1])
        else .error (.error (.outside p data.size))) ↔
      p.toNat + 1 < 2 ^ 64 ∨ data.size = 0) ∧
    ((m.execute (.draw x y n) =
        if m.index.toNat + n.toNat ≤ 4096 then
          ⟨.ok .draw, { m with
            screen := m.screen.draw sprite vx.toNat vy.toNat
            registers := m.registers.put 15 (Registers.ofBool hit) }, [.draw vx vy sprite]⟩
        else ⟨.error (.error (.memoryAccess m.index.toUInt64 n)), m, []⟩) ↔
      m.index.toNat + n.toNat < 2 ^ 64) ∧
    (m.index.toNat + n.toNat ≤ 4096 →
      sprite.length = n.toNat ∧ ∀ i < n.toNat, sprite[i]? = m.memory[m.index.toNat + i]?) ∧
    (p.toNat + 1 = 2 ^ 64 → data.size ≠ 0 → Word.read data p = .error .contract) ∧
    (2 ^ 64 ≤ m.index.toNat + n.toNat → m.execute (.draw x y n) = ⟨.error .contract, m, []⟩) := by
  refine ⟨Word.read_exact_iff data p hs, execute_draw_exact_iff hx hy hI, ?_, ?_, execute_draw_wrapped hx hy hI⟩
  · intro hfit
    exact ⟨m.memory.length_read hfit, fun i hi => m.memory.getElem?_read hi⟩
  · intro hlast h0
    rw [Word.read_last hlast hs, if_neg h0]

/-- V0 becomes `FF` and the last byte of the memory, at which `I` is left -/
def lastByte : Rom := ⟨"", [0x60, 0xFF, 0xAF, 0xFF, 0xF0, 0x55], by decide⟩

/-- A sprite of one row fits at the last byte. One more row is refused, and so is the longest that does not wrap. -/
theorem lastByte_exact :
    let code : Array UInt8 := #[0x00, 0xEE, 0x1E, 0xDA]
    let m := (powerOn (.ofScript #[])).after [.load lastByte, .cycle, .cycle, .cycle]
    (Word.read code 2 = .ok 0x1EDA ∧ Word.read code 3 = .error (.error (.outside 3 4)) ∧
      Word.read code 0xFFFFFFFFFFFFFFFE = .error (.error (.outside 0xFFFFFFFFFFFFFFFE 4))) ∧
    m.index = 0xFFF ∧ (m.execute (.draw 0 1 1)).events = [.draw 255 0 [0xFF]] ∧
      m.execute (.draw 0 1 2) = ⟨.error (.error (.memoryAccess 0xFFF 2)), m, []⟩ ∧
      m.execute (.draw 0 1 0xFFFFFFFFFFFFF000) =
        ⟨.error (.error (.memoryAccess 0xFFF 0xFFFFFFFFFFFFF000)), m, []⟩ := by
  intro code m
  have hm : m.index = 0xFFF ∧ m.registers.get 0 = 255 ∧ m.registers.get 1 = 0 ∧ m.memory[0xFFF]? = some 0xFF := by
    decide +kernel
  obtain ⟨hI, hx, hy, hbyte⟩ := hm
  -- which run it was is settled by now
  clear_value m
  have hfits : m.index.toNat ≤ 0xFFF := by rw [hI]; decide
  have hexact (p n : Size) :=
    bounds_exact_unless_wrapped code p (by decide) m 0 1 n (by decide) (by decide) hfits
  rw [hI] at hexact
  obtain ⟨hword, hdrawn, hsprite, -⟩ := hexact 2 1
  obtain ⟨hrefused, hsecondRow, -⟩ := hexact 3 2
  obtain ⟨hlongest, hallRows, -⟩ := hexact 0xFFFFFFFFFFFFFFFE 0xFFFFFFFFFFFFF000
  have hrow : m.memory.read 0xFFF 1 = [0xFF] := by
    obtain ⟨hlength, hbytes⟩ := hsprite (by decide)
    obtain ⟨row, hsingle⟩ := List.length_eq_one_iff.1 hlength
    have hfirst := (hbytes 0 (by decide)).trans hbyte
    rw [hsingle] at hfirst
    exact hsingle.trans (congrArg (fun b => [b]) (Option.some.inj hfirst))
  have hofBytes : Word.ofBytes code[(2 : Size).toNat] code[(2 : Size).toNat + 1] = 0x1EDA := by decide
  refine ⟨⟨?_, ?_, ?_⟩, hI, ?_, ?_, ?_⟩
  · rw [hword.2 (.inl (by decide)), dif_pos (by decide), hofBytes]
  · exact (hrefused.2 (.inl (by decide))).trans (dif_neg (by decide))
  · exact (hlongest.2 (.inl (by decide))).trans (dif_neg (by decide))
  · have hvx : m.registers.get ⟨(0 : Size).toNat, by decide⟩ = 255 := hx
    have hvy : m.registers.get ⟨(1 : Size).toNat, by decide⟩ = 0 := hy
    rw [hdrawn.2 (by decide), if_pos (by decide), hvx, hvy]
    exact congrArg (fun sprite => [Event.draw 255 0 sprite]) hrow
  · exact (hsecondRow.2 (by decide)).trans (if_neg (by decide))
  · exact (hallRows.2 (by decide)).trans (if_neg (by decide))

/-- The last pointer of all into four bytes, and the highest sprite of all at `300`: neither fits, and neither is
refused. -/
theorem wrapped_sums_pass :
    let code : Array UInt8 := #[0x00, 0xEE, 0x1E, 0xDA]
    let m := ((powerOn (.ofScript #[])).execute (.loadIndex 0x300)).state
    let last : Size := 0xFFFFFFFFFFFFFFFF
    (code.size < last.toNat + 2 ∧ Word.read code last = .error .contract) ∧
      m.index = 0x300 ∧ 4096 < m.index.toNat + last.toNat ∧
      m.execute (.draw 0 0 last) = ⟨.error .contract, m, []⟩ := by
  intro code m last
  have hI : m.index = 0x300 := by decide +kernel
  refine ⟨⟨by decide, Word.read_last (by decide) (by decide)⟩, hI, by rw [hI]; decide, ?_⟩
  exact execute_draw_wrapped (by decide) (by decide) (by rw [hI]; decide) (by rw [hI]; decide)

end Machine

end ChipEight
