/-
Why instructions fail. Of the instructions whose operands fit, only returns, jumps, calls and those that use a block of
memory can fail, each for one cause; a call looks at its target before it looks at the stack.

Results:
- `effect_eq_error_iff`: with `I` in the memory and a stack within its limit, an instruction fails exactly if the
  machine `Refuses` it, and then for the cause that goes with it.
-/
import ChipEight.Proofs.Machine.Effect
import ChipEight.Proofs.Machine.Fetch

namespace ChipEight

theorem bind_eq_error {ε α β : Type} {x : Except ε α} {f : α → Except ε β} {e : ε} :
    (x >>= f) = .error e ↔ x = .error e ∨ ∃ a, x = .ok a ∧ f a = .error e := by
  cases x <;> simp [bind, Except.bind]

namespace Machine

/-- why a machine refuses an instruction whose operands fit -/
inductive Refuses (m : Machine) : Instruction → CycleError → Prop where
  | ret (hs : m.stack = []) : Refuses m .ret (.stack .empty)
  | jump (nnn : UInt16) (ha : nnn.toNat % 2 = 1) : Refuses m (.jump nnn) (.misalignedJump nnn)
  /-- also if the stack is full -/
  | callOdd (nnn : UInt16) (ha : nnn.toNat % 2 = 1) : Refuses m (.call nnn) (.misalignedJump nnn)
  | callFull (nnn : UInt16) (ha : nnn.toNat % 2 = 0) (hs : m.stack.length = 16) : Refuses m (.call nnn) (.stack .full)
  /-- the sum is taken modulo the size of the memory -/
  | jumpOffset (nnn a : UInt16) (ha : a.toNat = (nnn.toNat + (m.registers.get 0).toNat) % 4096)
    (hodd : a.toNat % 2 = 1) : Refuses m (.jumpOffset nnn) (.misalignedJump a)
  | draw (x y n : Size) (hn : 4096 < m.index.toNat + n.toNat) :
    Refuses m (.draw x y n) (.memoryAccess m.index.toUInt64 n)
  | storeDigits (x : Size) (hn : 4096 < m.index.toNat + 3) :
    Refuses m (.storeDigits x) (.memoryAccess m.index.toUInt64 3)
  | storeRegisters (x : Size) (hn : 4096 < m.index.toNat + (x.toNat + 1)) :
    Refuses m (.storeRegisters x) (.memoryAccess m.index.toUInt64 (x + 1))
  | fillRegisters (x : Size) (hn : 4096 < m.index.toNat + (x.toNat + 1)) :
    Refuses m (.fillRegisters x) (.memoryAccess m.index.toUInt64 (x + 1))

/-! ## Targets and windows -/

theorem address_of_lt {a : UInt16} (h : a < 0x1000) : address a = a := by
  have h' : a.toNat < 4096 := h
  rw [← UInt16.toNat_inj, toNat_address]; omega

theorem toNat_address_offset {nnn : UInt16} {v : UInt8} (h : nnn < 0x1000) :
    (address (nnn + v.toUInt16)).toNat = (nnn.toNat + v.toNat) % 4096 := by
  have h' : nnn.toNat < 4096 := h
  have hv := v.toNat_lt
  rw [toNat_address, UInt16.toNat_add, UInt8.toNat_toUInt16]; omega

theorem target_eq_error_iff {a : UInt16} {f : Failure CycleError} :
    target a = .error f ↔ f = .error (.misalignedJump (address a)) ∧ (address a).toNat % 2 = 1 := by
  unfold target
  split_ifs with h
  · simp only [false_iff]
    intro ⟨_, h2⟩; omega
  · rw [Except.error.injEq]
    exact ⟨fun hf => ⟨hf.symm, by omega⟩, fun hf => hf.1.symm⟩

/-- the number of registers up to this one, if the sum does not wrap around -/
theorem toNat_add_one {x : Size} (hx : x.toNat < 2 ^ 32) : (x + 1).toNat = x.toNat + 1 := by
  have hone : (1 : Size).toNat = 1 := rfl
  rw [UInt64.toNat_add, hone]
  omega

theorem toNat_succ {x : Size} (hx : x < 16) : (x + 1).toNat = x.toNat + 1 :=
  toNat_add_one (Nat.lt_trans (show x.toNat < 16 from hx) (by decide))

/-- the end of a window is exact unless its sum wraps around -/
theorem window_index {index : UInt16} {n : Size} (hn : index.toNat + n.toNat < 2 ^ 64) :
    window index.toUInt64 n =
      if index.toNat + n.toNat ≤ 4096 then .ok () else .error (.error (.memoryAccess index.toUInt64 n)) := by
  have hI' : index.toUInt64.toNat = index.toNat := by simp
  have he : (index.toUInt64 + n).toNat = index.toNat + n.toNat := by
    rw [UInt64.toNat_add, hI', Nat.mod_eq_of_lt hn]
  have hle : index.toUInt64 ≤ index.toUInt64 + n := by
    rw [UInt64.le_iff_toNat_le, he, hI']; exact Nat.le_add_right _ _
  unfold window
  rw [he]
  simp only [Memory.size, hle, ite_true]

theorem window_of_le {index : UInt16} {n : Size} (h : index.toNat + n.toNat ≤ 4096) :
    window index.toUInt64 n = .ok () := by
  rw [window_index (by omega), if_pos h]

theorem window_outside {index : UInt16} {n : Size} (hout : 4096 < index.toNat + n.toNat)
    (hn : index.toNat + n.toNat < 2 ^ 64) :
    window index.toUInt64 n = .error (.error (.memoryAccess index.toUInt64 n)) := by
  rw [window_index hn, if_neg (Nat.not_le_of_lt hout)]

theorem window_eq_error_iff {index : UInt16} {n : Size} {f : Failure CycleError} (hI : index.toNat < 4096)
    (hn : n.toNat ≤ 16) :
    window index.toUInt64 n = .error f ↔
      f = .error (.memoryAccess index.toUInt64 n) ∧ 4096 < index.toNat + n.toNat := by
  rw [window_index (by omega)]
  split_ifs with h
  · simp only [false_iff]
    intro ⟨_, h2⟩; omega
  · rw [Except.error.injEq]
    exact ⟨fun hf => ⟨hf.symm, by omega⟩, fun hf => hf.1.symm⟩

/-! ## Instructions -/

variable {m : Machine} {i : Instruction} {f : Failure CycleError}

theorem effect_eq_error_iff (hi : i.Fits) (hI : m.index.toNat < 4096) (hs : m.stack.length ≤ 16) :
    m.effect i = .error f ↔ ∃ e, f = .error e ∧ m.Refuses i e := by
  cases i with
  | ret =>
    cases hst : m.stack with
    | nil =>
      simp only [effect, hst, Except.error.injEq]
      refine ⟨fun hf => ⟨_, hf.symm, .ret hst⟩, fun hf => ?_⟩
      obtain ⟨e, hf, he⟩ := hf
      cases he; exact hf.symm
    | cons a rest =>
      simp only [effect, hst, reduceCtorEq, false_iff, not_exists]
      rintro e ⟨-, he⟩
      cases he with | ret hs0 => rw [hst] at hs0; cases hs0
  | jump nnn =>
    have ha := address_of_lt (show nnn < 0x1000 from hi)
    simp only [effect, bind_eq_error, target_eq_error_iff, ha, reduceCtorEq, and_false, exists_false, or_false]
    refine ⟨fun hf => ⟨_, hf.1, .jump nnn hf.2⟩, fun hf => ?_⟩
    obtain ⟨e, hf, he⟩ := hf
    cases he with | jump _ h => exact ⟨hf, h⟩
  | call nnn =>
    have ha := address_of_lt (show nnn < 0x1000 from hi)
    simp only [effect, bind_eq_error, target_eq_error_iff, target_eq_ok_iff, ha]
    refine ⟨fun hf => ?_, fun hf => ?_⟩
    · rcases hf with ⟨hf, h⟩ | ⟨a, ⟨rfl, h⟩, hf⟩
      · exact ⟨_, hf, .callOdd nnn h⟩
      · split_ifs at hf with hl
        cases hf
        simp only [stackLimit] at hl
        exact ⟨_, rfl, .callFull a h (by omega)⟩
    · obtain ⟨e, hf, he⟩ := hf
      cases he with
      | callOdd _ h => exact .inl ⟨hf, h⟩
      | callFull _ h hl => exact .inr ⟨nnn, ⟨rfl, h⟩, by simp [stackLimit, hl, hf]⟩
  | jumpOffset nnn =>
    have ha := toNat_address_offset (v := m.registers.get 0) (show nnn < 0x1000 from hi)
    simp only [effect, Registers.lookup_zero, bind_eq_error, Except.ok.injEq, exists_eq_left', target_eq_error_iff,
      reduceCtorEq, and_false, exists_false, false_or, or_false]
    refine ⟨fun hf => ⟨_, hf.1, .jumpOffset nnn _ ha hf.2⟩, fun hf => ?_⟩
    obtain ⟨e, hf, he⟩ := hf
    cases he with
    | jumpOffset _ a h hodd =>
      rw [← ha, UInt16.toNat_inj] at h
      subst h
      exact ⟨hf, hodd⟩
  | draw x y n =>
    obtain ⟨hx, hy, hn⟩ := hi
    have hn' : n.toNat < 16 := hn
    simp only [effect, Registers.lookup_of_lt hx, Registers.lookup_of_lt hy, bind_eq_error, Except.ok.injEq,
      window_eq_error_iff hI hn'.le, reduceCtorEq, false_or, exists_eq_left', and_false, exists_false, or_false]
    refine ⟨fun hf => ⟨_, hf.1, .draw x y n hf.2⟩, fun hf => ?_⟩
    obtain ⟨e, hf, he⟩ := hf
    cases he with | draw _ _ _ h => exact ⟨hf, h⟩
  | storeDigits x =>
    simp only [effect, Registers.lookup_of_lt (show x < 16 from hi), bind_eq_error, Except.ok.injEq,
      window_eq_error_iff hI (show (3 : Size).toNat ≤ 16 by decide), reduceCtorEq, false_or, exists_eq_left',
      and_false, exists_false, or_false]
    refine ⟨fun hf => ⟨_, hf.1, .storeDigits x hf.2⟩, fun hf => ?_⟩
    obtain ⟨e, hf, he⟩ := hf
    cases he with | storeDigits _ h => exact ⟨hf, h⟩
  | storeRegisters x | fillRegisters x =>
    -- the window is looked at before the register, and neither its length nor the register number can go wrong
    have hx : x.toNat < 16 := hi
    have hx1 := toNat_succ (x := x) hi
    simp only [effect, Registers.lookup_of_lt (show x < 16 from hi), bind_eq_error,
      window_eq_error_iff hI (show (x + 1).toNat ≤ 16 by omega), hx1, reduceCtorEq, and_false, exists_false, or_false]
    refine ⟨fun hf => ⟨_, hf.1, by constructor; exact hf.2⟩, fun hf => ?_⟩
    obtain ⟨e, hf, he⟩ := hf
    cases he; exact ⟨hf, by assumption⟩
  | skipSame x y | skipDifferent x y | alu _ x y =>
    simp only [effect, Registers.lookup_of_lt hi.1, Registers.lookup_of_lt hi.2, bind_eq_error, Except.ok.injEq,
      exists_eq_left', reduceCtorEq, or_false, false_iff, not_exists]
    rintro e ⟨-, he⟩; cases he
  | clearScreen | machineRoutine _ | loadIndex _ | awaitKey _ =>
    simp only [effect, reduceCtorEq, false_iff, not_exists]
    rintro e ⟨-, he⟩; cases he
  | _ x =>
    simp only [effect, Registers.lookup_of_lt (show x < 16 from hi), bind_eq_error, Except.ok.injEq,
      exists_eq_left', reduceCtorEq, or_false, false_iff, not_exists]
    rintro e ⟨-, he⟩; cases he

/-- a refused instruction is no failed fetch -/
theorem Refuses.ne_word {e : CycleError} {c : WordError} (h : m.Refuses i e) : e ≠ .word c := by
  cases h <;> simp

/-- The fetch changes nothing that a refusal depends on. -/
theorem refuses_fetched {w : Word} {e : CycleError} : (m.fetched w).Refuses i e ↔ m.Refuses i e := by
  constructor <;> intro h <;> cases h <;> constructor <;> assumption

end Machine

end ChipEight
