/-
What an instruction that takes effect can do to each part of the machine. A part that is not named here as changed by
an instruction is left alone by it.

Results:
- `effect_pc`, `effect_keypad`: the program counter is never touched, only the step that follows moves it, and the
  keypad is not either;
- `effect_step`: it goes on, skips, or jumps to a checked target or to the newest return address;
- `effect_stack`, `effect_index`, `effect_awaiting`: who changes the stack, `I` and the wait, and how.
-/
import ChipEight.Proofs.Machine.Summary
import ChipEight.Proofs.Instruction.Layout

namespace ChipEight

/-! ## Operations that can fail -/

theorem bind_eq_ok {ε α β : Type} {x : Except ε α} {f : α → Except ε β} {b : β} :
    (x >>= f) = .ok b ↔ ∃ a, x = .ok a ∧ f a = .ok b := by
  cases x <;> simp [bind, Except.bind]

theorem Registers.lookup_of_lt {x : Size} (h : x < 16) : lookup x = .ok ⟨x.toNat, h⟩ := dif_pos h

namespace Machine

theorem toNat_address (a : UInt16) : (address a).toNat = a.toNat % 4096 := by
  simp only [address, Memory.size, UInt16.toNat_ofNat']; omega

theorem target_eq_ok_iff {a b : UInt16} : target a = .ok b ↔ b = address a ∧ b.toNat % 2 = 0 := by
  unfold target
  split_ifs with h
  · rw [Except.ok.injEq]
    exact ⟨fun hb => hb ▸ ⟨rfl, h⟩, fun hb => hb.1.symm⟩
  · simp only [false_iff]
    rintro ⟨rfl, h2⟩; exact h h2

/-! ## Parts of the machine -/

variable {m : Machine} {i : Instruction} {e : Effect}

/-- An instruction whose operands fit leaves the machine as it is if it fails: the only one that fails with something
done is `CXNN` with a register that there is not. -/
theorem execute_of_refused {f : Failure CycleError} (hi : i.Fits) (hf : m.effect i = .error f) :
    m.execute i = .quiet (.error f) m := by
  rw [execute_of_error hf]
  cases i with
  | random x nn => simp [effect, Registers.lookup_of_lt (show x < 16 from hi), bind, Except.bind] at hf
  | _ => rfl

theorem effect_pc (h : m.effect i = .ok e) : e.machine.pc = m.pc := by
  cases i <;> simp only [effect, bind_eq_ok] at h <;> grind

/-- the keypad is in the hands of the host alone -/
theorem effect_keypad (h : m.effect i = .ok e) : e.machine.keypad = m.keypad := by
  cases i <;> simp only [effect, bind_eq_ok] at h <;> grind

theorem effect_step (h : m.effect i = .ok e) :
    e.step = .next ∨ e.step = .skip ∨ (∃ a b, target a = .ok b ∧ e.step = .jump b) ∨
      ∃ a ∈ m.stack, e.step = .jump a := by
  have hskip (c : Bool) : Step.skipIf c = .next ∨ Step.skipIf c = .skip := by cases c <;> simp [Step.skipIf]
  cases i with
  | ret =>
    simp only [effect] at h
    split at h
    · cases h
    · rename_i a rest hs
      cases h
      exact .inr (.inr (.inr ⟨a, by simp [hs], rfl⟩))
  | _ =>
    simp only [effect, bind_eq_ok] at h
    grind

theorem effect_stack (h : m.effect i = .ok e) :
    e.machine.stack = m.stack ∨
      (∃ nnn, i = .call nnn ∧ m.stack.length < stackLimit ∧ e.machine.stack = m.pc :: m.stack) ∨
      (i = .ret ∧ ∃ a, m.stack = a :: e.machine.stack ∧ e.step = .jump a) := by
  cases i with
  | call nnn =>
    simp only [effect, bind_eq_ok] at h
    obtain ⟨a, -, h⟩ := h
    split_ifs at h with hl
    cases h
    exact .inr (.inl ⟨nnn, rfl, hl, rfl⟩)
  | ret =>
    simp only [effect] at h
    split at h
    · cases h
    · rename_i a rest hs
      cases h
      exact .inr (.inr ⟨rfl, a, hs, rfl⟩)
  | _ =>
    left
    simp only [effect, bind_eq_ok] at h
    grind

theorem effect_index (h : m.effect i = .ok e) :
    e.machine.index = m.index ∨ (∃ a, e.machine.index = address a) ∨
      ∃ d < 16, e.machine.index = .ofNat (d * Memory.glyphSize) := by
  cases i with
  | loadIndex nnn => cases h; exact .inr (.inl ⟨nnn, rfl⟩)
  | addIndex x =>
    simp only [effect, bind_eq_ok] at h
    obtain ⟨i, -, h⟩ := h
    cases h
    exact .inr (.inl ⟨_, rfl⟩)
  | pointGlyph x =>
    simp only [effect, bind_eq_ok] at h
    obtain ⟨i, -, h⟩ := h
    cases h
    exact .inr (.inr ⟨_, Nat.mod_lt _ (by decide), rfl⟩)
  | _ =>
    left
    simp only [effect, bind_eq_ok] at h
    grind

/-- glyphs are in the font, and every other `I` is an address -/
theorem effect_index_le (hI : m.index.toNat ≤ 0xFFF) (h : m.effect i = .ok e) : e.machine.index.toNat ≤ 0xFFF := by
  rcases effect_index h with hx | ⟨a, hx⟩ | ⟨d, hd, hx⟩
  · rw [hx]; exact hI
  · have := toNat_address a
    rw [hx]; omega
  · have hd5 : d * 5 < 2 ^ 16 := by omega
    rw [hx, Memory.glyphSize, UInt16.toNat_ofNat', Nat.mod_eq_of_lt hd5]; omega

theorem effect_awaiting (h : m.effect i = .ok e) :
    e.machine.awaiting = m.awaiting ∨ ∃ x, i = .awaitKey x ∧ e.machine.awaiting = some x := by
  cases i with
  | awaitKey x => cases h; exact .inr ⟨x, rfl, rfl⟩
  | _ =>
    left
    simp only [effect, bind_eq_ok] at h
    grind

end Machine

end ChipEight
