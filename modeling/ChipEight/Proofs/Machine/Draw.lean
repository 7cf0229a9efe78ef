/-
`DXYN` from the bytes at `I` to the screen and the flag. The place is read from VX and VY before the flag is written to
VF, also if one of them is VF; the sprite has at most fifteen rows, so that it hits no pixel twice and the flag tells
whether a lit pixel went dark.

Results:
- `execute_draw`: all that the instruction does, in terms of drawing;
- `draw_end_to_end`: the pixels that change, and the flag, byte by byte of memory; and what the same instruction does
  next, if it finds VX and VY as they were.
-/
import ChipEight.Proofs.Machine.Frame
import ChipEight.Proofs.Screen.Drawing

namespace ChipEight

/-! ## Blocks of memory -/

namespace Memory

theorem getElem?_read (m : Memory) {start count i : Nat} (hi : i < count) :
    (m.read start count)[i]? = m[start + i]? := by
  rw [read, Array.getElem?_toList, Array.getElem?_extract]
  by_cases hm : start + i < 4096
  · have hin : i < min (start + count) m.toArray.size - start := by
      rw [Vector.size_toArray]
      omega
    rw [if_pos hin, Vector.getElem?_toArray]
  · have hout : ¬ i < min (start + count) m.toArray.size - start := by
      rw [Vector.size_toArray]
      omega
    rw [if_neg hout, Vector.getElem?_eq_none (by omega)]

end Memory

namespace Machine

variable {m : Machine} {x y n : Size}

theorem execute_draw (hx : x < 16) (hy : y < 16) (hfit : m.index.toNat + n.toNat ≤ 4096) :
    let vx := m.registers.get ⟨x.toNat, hx⟩
    let vy := m.registers.get ⟨y.toNat, hy⟩
    let sprite := m.memory.read m.index.toNat n.toNat
    let hit := m.screen.collides sprite vx.toNat vy.toNat
    m.execute (.draw x y n) = ⟨.ok .draw, { m with
      screen := m.screen.draw sprite vx.toNat vy.toNat
      registers := m.registers.put 15 (Registers.ofBool hit) }, [.draw vx vy sprite]⟩ := by
  intro vx vy sprite hit
  simp only [execute_eq, effect, Registers.lookup_of_lt hx, Registers.lookup_of_lt hy, window_of_le hfit, bind,
    Except.bind]
  rfl

/-- **Drawing from end to end.** For a block of memory that lies within it, the instruction switches exactly the pixels
under the set bits of its bytes, from column VX and row VY on and around the edges; both are read before VF is written.
VF tells whether a lit pixel went dark, and nothing else changes. If neither VX nor VY is VF, the same instruction
takes all of it back, and VF then tells whether a dark pixel was lit the first time. -/
theorem draw_end_to_end (m : Machine) {x y n : Size} (hx : x < 16) (hy : y < 16) (hn : n < 16)
    (hfit : m.index.toNat + n.toNat ≤ 4096) :
    let vx := m.registers.get ⟨x.toNat, hx⟩
    let vy := m.registers.get ⟨y.toNat, hy⟩
    let o := m.execute (.draw x y n)
    let again := o.state.execute (.draw x y n)
    (o.value = .ok .draw ∧ o.events = [.draw vx vy (m.memory.read m.index.toNat n.toNat)]) ∧
    (∀ (px : Fin 64) (py : Fin 32), o.state.screen.lit px py ≠ m.screen.lit px py ↔
      ∃ i < n.toNat, ∃ byte, m.memory[m.index.toNat + i]? = some byte ∧
        ∃ j < 8, byte.toNat.testBit (7 - j) = true ∧ (vx.toNat + j) % 64 = px ∧ (vy.toNat + i) % 32 = py) ∧
    (∃ hit : Bool,
      (hit = true ↔ ∃ p : Screen.Place, m.screen.lit p.1 p.2 = true ∧ o.state.screen.lit p.1 p.2 = false) ∧
      o.state = { m with screen := o.state.screen, registers := m.registers.put 15 (Registers.ofBool hit) }) ∧
    (x ≠ 15 → y ≠ 15 → again.value = .ok .draw ∧ again.state.screen = m.screen ∧
      ∃ hit : Bool,
        (hit = true ↔ ∃ p : Screen.Place, m.screen.lit p.1 p.2 = false ∧ o.state.screen.lit p.1 p.2 = true) ∧
        again.state.registers.get 15 = Registers.ofBool hit) := by
  intro vx vy o again
  set sprite := m.memory.read m.index.toNat n.toNat with hsprite
  have hn : n.toNat < 16 := hn
  have hlen : sprite.length = n.toNat := m.memory.length_read hfit
  have hshort : sprite.length ≤ 32 := by omega
  have ho : o = _ := execute_draw hx hy hfit
  have hscreen : o.state.screen = m.screen.draw sprite vx.toNat vy.toNat := by rw [ho]
  have hregisters : o.state.registers =
      m.registers.put 15 (Registers.ofBool (m.screen.collides sprite vx.toNat vy.toNat)) := by rw [ho]
  have hmemory : o.state.memory = m.memory := by rw [ho]
  have hindex : o.state.index = m.index := by rw [ho]
  refine ⟨⟨?_, ?_⟩, ?_, ⟨m.screen.collides sprite vx.toNat vy.toNat, ?_, ?_⟩, ?_⟩
  · rw [ho]
  · rw [ho]
  · intro px py
    rw [hscreen, Screen.lit_draw_ne_iff hshort (p := (px, py)), Screen.mem_dots]
    constructor
    · rintro ⟨i, byte, hi, hbit⟩
      obtain ⟨hlt, -⟩ := List.getElem?_eq_some_iff.1 hi
      rw [hlen] at hlt
      exact ⟨i, hlt, byte, by rwa [← m.memory.getElem?_read hlt], hbit⟩
    · rintro ⟨i, hlt, byte, hi, hbit⟩
      exact ⟨i, byte, by rwa [hsprite, m.memory.getElem?_read hlt], hbit⟩
  · rw [hscreen]
    exact Screen.collides_iff hshort
  · rw [ho]
  · intro hx15 hy15
    have hkeeps {z : Size} (hz : z < 16) (hz15 : z ≠ 15) :
        o.state.registers.get ⟨z.toNat, hz⟩ = m.registers.get ⟨z.toNat, hz⟩ := by
      rw [hregisters]
      apply Registers.get_put_of_ne
      intro h
      have hval : z.toNat = 15 := congrArg Fin.val h
      exact hz15 (UInt64.toNat_inj.1 hval)
    have hagain : again = _ := execute_draw (m := o.state) hx hy (by rwa [hindex])
    rw [hkeeps hx hx15, hkeeps hy hy15, hindex, hmemory, hscreen] at hagain
    refine ⟨?_, ?_, (m.screen.draw sprite vx.toNat vy.toNat).collides sprite vx.toNat vy.toNat, ?_, ?_⟩
    · rw [hagain]
    · rw [hagain]
      exact m.screen.draw_draw sprite vx.toNat vy.toNat
    · rw [hscreen]
      exact Screen.collides_draw_iff hshort
    · rw [hagain]
      exact (Registers.get_put _ _ _ _).trans (if_pos rfl)

/-- two glyphs, one over the other, around the corner of the screen -/
def cornerGlyphs : Rom :=
  ⟨"", [0x60, 0x3E, 0x61, 0x1E, 0xD0, 0x15, 0xA0, 0x05, 0xD0, 0x15], by decide⟩

/-- the second glyph darkens one pixel and lights another, and is taken back by drawing it again -/
theorem cornerGlyphs_drawn :
    let m := (powerOn (.ofScript #[])).after [.load cornerGlyphs, .cycle, .cycle, .cycle, .cycle]
    let o := m.execute (.draw 0 1 5)
    let again := o.state.execute (.draw 0 1 5)
    m.index.toNat + 5 ≤ 4096 ∧ o.value = .ok .draw ∧
      (m.screen.lit 0 30 = true ∧ o.state.screen.lit 0 30 = false) ∧
      (m.screen.lit 0 31 = false ∧ o.state.screen.lit 0 31 = true) ∧
      o.state.registers.get 15 = 1 ∧ again.state.screen = m.screen ∧ again.state.registers.get 15 = 1 := by
  intro m o again
  have hm : m.index = 5 ∧ m.registers.get 0 = 62 ∧ m.registers.get 1 = 30 ∧
      (m.memory[5]? = some 0x20 ∧ m.memory[6]? = some 0x60) ∧
      m.screen.lit 0 30 = true ∧ m.screen.lit 0 31 = false := by decide +kernel
  obtain ⟨hI, hx, hy, ⟨hfirst, hsecond⟩, hlit, hdark⟩ := hm
  -- which run it was is settled by now
  clear_value m
  have hfit : m.index.toNat + (5 : Size).toNat ≤ 4096 := by rw [hI]; decide
  obtain ⟨⟨hvalue, -⟩, hpixels, ⟨hit, hhit, hstate⟩, htwice⟩ :=
    draw_end_to_end m (x := 0) (y := 1) (n := 5) (by decide) (by decide) (by decide) hfit
  obtain ⟨-, hback, back, hhback, hflag⟩ := htwice (by decide) (by decide)
  have hvx : m.registers.get ⟨(0 : Size).toNat, by decide⟩ = 62 := hx
  have hvy : m.registers.get ⟨(1 : Size).toNat, by decide⟩ = 30 := hy
  rw [hvx, hvy, hI] at hpixels
  -- the third bit of the first row, and of the second
  have hout : o.state.screen.lit 0 30 = false := by
    have hchange := (hpixels 0 30).2 ⟨0, by decide, 0x20, hfirst, 2, by decide, by decide, by decide, by decide⟩
    simpa [hlit] using hchange
  have hin : o.state.screen.lit 0 31 = true := by
    have hchange := (hpixels 0 31).2 ⟨1, by decide, 0x60, hsecond, 2, by decide, by decide, by decide, by decide⟩
    simpa [hdark] using hchange
  have hhit : hit = true := hhit.2 ⟨(0, 30), hlit, hout⟩
  have hback' : back = true := hhback.2 ⟨(0, 31), hdark, hin⟩
  have hregisters := congrArg Machine.registers hstate
  refine ⟨hfit, hvalue, ⟨hlit, hout⟩, ⟨hdark, hin⟩, ?_, hback, ?_⟩
  · show (o.state.registers).get 15 = 1
    rw [hregisters, hhit, Registers.get_put]
    rfl
  · rw [hflag, hback']
    rfl

end Machine

end ChipEight
