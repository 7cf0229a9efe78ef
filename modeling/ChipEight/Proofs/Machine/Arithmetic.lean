/-
The operations on two registers, in exact arithmetic. `result` is what an operation makes of the values of VX and VY
and `flag` the flag that it leaves, both on numbers; the registers afterwards hold just that, wherever VX, VY and VF are
the same register. If VX is VF the flag remains, as it is written last; but a shift writes its flag first, and what
remains then is the flag shifted.

Results:
- `toNat_get_logic`, `toNat_get_sum`, `toNat_get_shift`: every register after an operation without a flag, with a carry
  or borrow, and after a shift;
- `arithmetic_exact`: the nine instructions.
-/
import ChipEight.Proofs.Machine.Frame

namespace ChipEight

namespace AluOp

/-- the operation shifts VX, and has no use for VY -/
def shifts : AluOp → Bool
  | .shiftRight | .shiftLeft => true
  | _ => false

/-- what the operation makes of the values of VX and VY -/
def result (op : AluOp) (vx vy : Nat) : Nat :=
  match op with
  | .load => vy
  | .or => vx ||| vy
  | .and => vx &&& vy
  | .xor => vx ^^^ vy
  | .add => (vx + vy) % 256
  | .sub => (256 + vx - vy) % 256
  | .shiftRight => vx / 2
  | .subFrom => (256 + vy - vx) % 256
  | .shiftLeft => 2 * vx % 256

/-- the flag that it leaves: a carry, no borrow, or the bit shifted out; zero for the operations that leave none -/
def flag (op : AluOp) (vx vy : Nat) : Nat :=
  match op with
  | .load | .or | .and | .xor => 0
  | .add => if 255 < vx + vy then 1 else 0
  | .sub => if vy ≤ vx then 1 else 0
  | .shiftRight => vx % 2
  | .subFrom => if vx ≤ vy then 1 else 0
  | .shiftLeft => vx / 128

end AluOp

/-! ## Bytes as numbers -/

namespace Registers

theorem toNat_ofBool (c : Bool) : (ofBool c).toNat = if c = true then 1 else 0 := by cases c <;> rfl

theorem toNat_sub (v w : UInt8) : (v - w).toNat = (256 + v.toNat - w.toNat) % 256 := by
  have hw := w.toNat_lt
  rw [UInt8.toNat_sub]
  omega

theorem toNat_shiftRight_one (v : UInt8) : (v >>> 1).toNat = v.toNat / 2 := by
  rw [UInt8.toNat_shiftRight]
  rfl

theorem toNat_shiftLeft_one (v : UInt8) : (v <<< 1).toNat = 2 * v.toNat % 256 := by
  have hone : (1 : UInt8).toNat % 8 = 1 := rfl
  rw [UInt8.toNat_shiftLeft, hone, Nat.shiftLeft_eq]
  omega

theorem toNat_lowBit (v : UInt8) : (v &&& 1).toNat = v.toNat % 2 := by
  rw [UInt8.toNat_and]
  exact Nat.and_one_is_mod _

theorem toNat_highBit (v : UInt8) : (v >>> 7).toNat = v.toNat / 128 := by
  rw [UInt8.toNat_shiftRight]
  exact Nat.shiftRight_eq_div_pow _ 7

/-! ## Every register after an operation -/

variable (r : Registers) {op : AluOp} (x y j : Fin 16)

theorem toNat_get_put (v : UInt8) : ((r.put x v).get j).toNat = if j = x then v.toNat else (r.get j).toNat := by
  rw [get_put]
  by_cases h : j = x
  · rw [if_pos h, if_pos h.symm]
  · rw [if_neg h, if_neg fun h' => h h'.symm]

theorem toNat_get_logic (h : op.setsFlag = false) :
    ((r.alu op x y).get j).toNat = if j = x then op.result (r.get x).toNat (r.get y).toNat else (r.get j).toNat := by
  cases op with
  | load => exact r.toNat_get_put x j _
  | or => rw [alu, toNat_get_put, UInt8.toNat_or]; rfl
  | and => rw [alu, toNat_get_put, UInt8.toNat_and]; rfl
  | xor => rw [alu, toNat_get_put, UInt8.toNat_xor]; rfl
  | _ => cases h

/-- the flag remains if VX is VF -/
theorem toNat_get_sum (h : op.setsFlag = true) (hs : op.shifts = false) :
    ((r.alu op x y).get j).toNat =
      if j = 15 then op.flag (r.get x).toNat (r.get y).toNat
      else if j = x then op.result (r.get x).toNat (r.get y).toNat else (r.get j).toNat := by
  cases op with
  | add =>
    rw [alu, toNat_get_put, toNat_get_put, toNat_ofBool, UInt8.toNat_add]
    simp only [decide_eq_true_eq]
    rfl
  | sub | subFrom =>
    rw [alu, toNat_get_put, toNat_get_put, toNat_ofBool, toNat_sub]
    simp only [decide_eq_true_eq, UInt8.le_iff_toNat_le]
    rfl
  | load | or | and | xor => cases h
  | shiftRight | shiftLeft => cases hs

/-- the flag is there before VX is shifted, so that it is the flag that is shifted if VX is VF -/
theorem toNat_get_shift (hs : op.shifts = true) :
    let flag := op.flag (r.get x).toNat (r.get y).toNat
    ((r.alu op x y).get j).toNat =
      if j = x then op.result (if x = 15 then flag else (r.get x).toNat) (r.get y).toNat
      else if j = 15 then flag else (r.get j).toNat := by
  intro flag
  cases op with
  | shiftRight =>
    rw [alu, toNat_get_put, toNat_shiftRight_one, toNat_get_put, toNat_get_put, toNat_lowBit]
    rfl
  | shiftLeft =>
    rw [alu, toNat_get_put, toNat_shiftLeft_one, toNat_get_put, toNat_get_put, toNat_highBit]
    rfl
  | _ => cases hs

end Registers

/-! ## The instructions -/

theorem toNat_ofNat_register (x : Fin 16) : (UInt64.ofNat x).toNat = x := by
  rw [UInt64.toNat_ofNat']
  omega

theorem Instruction.decode_alu (op : AluOp) (x y : Fin 16) :
    decode (.ofNat (0x8000 + x * 0x100 + y * 0x10 + op.nibble)) = .ok (.alu op (.ofNat x) (.ofNat y)) := by
  have hfits (i : Fin 16) : UInt64.ofNat i < 16 := by
    rw [UInt64.lt_iff_toNat_lt, toNat_ofNat_register]
    exact i.isLt
  refine decode_eq_ok_iff.2 ⟨⟨hfits x, hfits y⟩, ?_⟩
  rw [encode, pairWord, toNat_ofNat_register, toNat_ofNat_register]

namespace Machine

theorem execute_alu (m : Machine) (op : AluOp) (x y : Fin 16) :
    m.execute (.alu op (.ofNat x) (.ofNat y)) =
      ⟨.ok .plain, { m with registers := m.registers.alu op x y }, []⟩ := by
  have hlookup (i : Fin 16) : Registers.lookup (.ofNat i) = .ok i :=
    Registers.lookup_eq_ok_iff.2 (toNat_ofNat_register i).symm
  simp only [execute_eq, effect, hlookup, bind, Except.bind]
  rfl

/-- **The arithmetic of the nine operations**, the words `8XY0` to `8XY7` and `8XYE`, for all registers, with `vx` and
`vy` the values before.
- The operations without a flag write VX alone.
- Sums and differences are taken modulo 256 and tell in VF whether there was a carry, or no borrow; if VX is VF, this
  is what remains.
- The shifts have no use for VY. They halve or double VX and leave in VF the bit shifted out; if VX is VF it holds zero
  after a shift to the right, and twice the bit after one to the left.
- No other register changes, and nothing else of the machine. -/
theorem arithmetic_exact (m : Machine) (x y : Fin 16) :
    let vx := (m.registers.get x).toNat
    let vy := (m.registers.get y).toNat
    let run (op : AluOp) (y : Fin 16) := m.execute (.alu op (.ofNat x) (.ofNat y))
    let after (op : AluOp) (j : Fin 16) : Nat := ((run op y).state.registers.get j).toNat
    (∀ op,
      Instruction.decode (.ofNat (0x8000 + x * 0x100 + y * 0x10 + op.nibble)) = .ok (.alu op (.ofNat x) (.ofNat y)) ∧
      (run op y).value = .ok .plain ∧ (run op y).events = [] ∧
      (run op y).state = { m with registers := (run op y).state.registers }) ∧
    ((after .load x = vy ∧ after .or x = vx ||| vy ∧ after .and x = vx &&& vy ∧ after .xor x = vx ^^^ vy) ∧
      ∀ op ∈ [AluOp.load, .or, .and, .xor], ∀ j, j ≠ x → after op j = (m.registers.get j).toNat) ∧
    ((x ≠ 15 → after .add x = (vx + vy) % 256 ∧ after .sub x = (256 + vx - vy) % 256 ∧
        after .subFrom x = (256 + vy - vx) % 256) ∧
      after .add 15 = (if 255 < vx + vy then 1 else 0) ∧ after .sub 15 = (if vy ≤ vx then 1 else 0) ∧
      after .subFrom 15 = (if vx ≤ vy then 1 else 0)) ∧
    ((x ≠ 15 → (after .shiftRight x = vx / 2 ∧ after .shiftRight 15 = vx % 2) ∧
        after .shiftLeft x = 2 * vx % 256 ∧ after .shiftLeft 15 = vx / 128) ∧
      (x = 15 → after .shiftRight 15 = 0 ∧ after .shiftLeft 15 = 2 * (vx / 128)) ∧
      ∀ y', run .shiftRight y' = run .shiftRight y ∧ run .shiftLeft y' = run .shiftLeft y) ∧
    ∀ op j, j ≠ x → j ≠ 15 → after op j = (m.registers.get j).toNat := by
  intro vx vy run after
  have hrun (op : AluOp) : run op y = ⟨.ok .plain, { m with registers := m.registers.alu op x y }, []⟩ :=
    m.execute_alu op x y
  have hafter (op : AluOp) (j : Fin 16) : after op j = ((m.registers.alu op x y).get j).toNat :=
    congrArg (fun o => (o.state.registers.get j).toNat) (hrun op)
  have hlogic {op : AluOp} (h : op.setsFlag = false) (j : Fin 16) :
      after op j = if j = x then op.result vx vy else (m.registers.get j).toNat :=
    (hafter op j).trans (m.registers.toNat_get_logic x y j h)
  have hsum {op : AluOp} (h : op.setsFlag = true) (hs : op.shifts = false) (j : Fin 16) :
      after op j = if j = 15 then op.flag vx vy else if j = x then op.result vx vy else (m.registers.get j).toNat :=
    (hafter op j).trans (m.registers.toNat_get_sum x y j h hs)
  have hshift {op : AluOp} (hs : op.shifts = true) (j : Fin 16) :
      after op j = if j = x then op.result (if x = 15 then op.flag vx vy else vx) vy
        else if j = 15 then op.flag vx vy else (m.registers.get j).toNat :=
    (hafter op j).trans (m.registers.toNat_get_shift x y j hs)
  refine ⟨?_, ⟨⟨?_, ?_, ?_, ?_⟩, ?_⟩, ⟨?_, ?_, ?_, ?_⟩, ⟨?_, ?_, ?_⟩, ?_⟩
  · intro op
    rw [hrun]
    exact ⟨Instruction.decode_alu op x y, rfl, rfl, rfl⟩
  -- without a flag
  · exact (hlogic rfl x).trans (if_pos rfl)
  · exact (hlogic rfl x).trans (if_pos rfl)
  · exact (hlogic rfl x).trans (if_pos rfl)
  · exact (hlogic rfl x).trans (if_pos rfl)
  · intro op hop j hj
    have hflagless : op.setsFlag = false := by
      simp only [List.mem_cons, List.not_mem_nil, or_false] at hop
      rcases hop with rfl | rfl | rfl | rfl <;> rfl
    exact (hlogic hflagless j).trans (if_neg hj)
  -- sums and differences
  · intro hx
    have hresult {op : AluOp} (h : op.setsFlag = true) (hs : op.shifts = false) : after op x = op.result vx vy := by
      rw [hsum h hs, if_neg hx, if_pos rfl]
    exact ⟨hresult rfl rfl, hresult rfl rfl, hresult rfl rfl⟩
  · exact (hsum rfl rfl 15).trans (if_pos rfl)
  · exact (hsum rfl rfl 15).trans (if_pos rfl)
  · exact (hsum rfl rfl 15).trans (if_pos rfl)
  -- shifts
  · intro hx
    have hresult {op : AluOp} (hs : op.shifts = true) : after op x = op.result vx vy := by
      rw [hshift hs, if_pos rfl, if_neg hx]
    have hflag {op : AluOp} (hs : op.shifts = true) : after op 15 = op.flag vx vy := by
      rw [hshift hs, if_neg fun h => hx h.symm, if_pos rfl]
    exact ⟨⟨hresult rfl, hflag rfl⟩, hresult rfl, hflag rfl⟩
  · intro hx
    have hshifted {op : AluOp} (hs : op.shifts = true) : after op 15 = op.result (op.flag vx vy) vy := by
      rw [hshift hs, if_pos hx.symm, if_pos hx]
    have hvx : vx < 256 := (m.registers.get x).toNat_lt
    constructor
    · calc after .shiftRight 15 = vx % 2 / 2 := hshifted rfl
        _ = 0 := by omega
    · calc after .shiftLeft 15 = 2 * (vx / 128) % 256 := hshifted rfl
        _ = 2 * (vx / 128) := by omega
  · intro y'
    constructor
    · exact (m.execute_alu .shiftRight x y').trans (hrun .shiftRight).symm
    · exact (m.execute_alu .shiftLeft x y').trans (hrun .shiftLeft).symm
  · intro op j hx hf
    rw [hafter, Registers.get_alu_of_ne hx fun _ => hf]

end Machine

end ChipEight
