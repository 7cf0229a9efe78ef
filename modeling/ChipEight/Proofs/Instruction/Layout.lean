/-
The layout of instruction words. A word is its four nibbles, and each family of instructions packs its operands into
them in one way. `decode?` and `encode` are inverse to each other between the words that stand for an instruction and
the instructions whose operands fit.

Results:
- `decode?_encode`: the word of an instruction that fits decodes to it, so no two of them share a word;
- `fits_of_decode?`: a word that decodes is the word of what it decodes to, so no operand bit is lost and no gap of a
  family is read as an instruction;
- `decode_eq_ok_iff`, `decode_eq_error_iff`: the same for `decode`, whose only error names the word.
-/
import ChipEight.Instruction.Decode
import ChipEight.Instruction.Encode
import Mathlib.Tactic

namespace ChipEight

/-! ## The fields of a word -/

namespace Word

theorem kind_eq (w : Word) : w.kind = w.toNat / 4096 := by
  have h := w.toNat_lt
  simp only [kind, nibble, Nat.pow_eq]; omega

theorem n_eq (w : Word) : w.n = w.toNat % 16 := by simp [n, nibble]

theorem toNat_x (w : Word) : w.x.toNat = w.toNat / 256 % 16 := by
  simp only [x, nibble, Nat.pow_eq, UInt64.toNat_ofNat']; omega

theorem toNat_y (w : Word) : w.y.toNat = w.toNat / 16 % 16 := by
  simp only [y, nibble, Nat.pow_eq, UInt64.toNat_ofNat']; omega

theorem toNat_nn (w : Word) : w.nn.toNat = w.toNat % 256 := by
  simp only [nn, UInt8.toNat_ofNat']

theorem toNat_nnn (w : Word) : w.nnn.toNat = w.toNat % 4096 := by
  simp only [nnn, UInt16.toNat_ofNat']; omega

theorem kind_lt (w : Word) : w.kind < 16 := by
  have h := w.toNat_lt
  rw [kind_eq]; omega

theorem x_lt (w : Word) : w.x < 16 := by
  rw [UInt64.lt_iff_toNat_lt, toNat_x]; exact Nat.mod_lt _ (by decide)

theorem y_lt (w : Word) : w.y < 16 := by
  rw [UInt64.lt_iff_toNat_lt, toNat_y]; exact Nat.mod_lt _ (by decide)

theorem n_lt (w : Word) : w.n < 16 := by
  rw [n_eq]; exact Nat.mod_lt _ (by decide)

theorem nnn_lt (w : Word) : w.nnn < 0x1000 := by
  rw [UInt16.lt_iff_toNat_lt, toNat_nnn]; exact Nat.mod_lt _ (by decide)

end Word

/-! ## Packing the fields, and reading them back -/

namespace Instruction

variable {k n : Nat} {x y : Size} {nn : UInt8} {nnn : UInt16}

theorem toNat_addressWord (hk : k < 16) (hn : nnn < 0x1000) : (addressWord k nnn).toNat = k * 4096 + nnn.toNat := by
  have hn : nnn.toNat < 4096 := hn
  simp only [addressWord, UInt16.toNat_ofNat']; omega

theorem toNat_byteWord (hk : k < 16) (hx : x < 16) :
    (byteWord k x nn).toNat = k * 4096 + x.toNat * 256 + nn.toNat := by
  have hx : x.toNat < 16 := hx
  have hn := nn.toNat_lt
  simp only [byteWord, UInt16.toNat_ofNat']; omega

theorem toNat_pairWord (hk : k < 16) (hx : x < 16) (hy : y < 16) (hn : n < 16) :
    (pairWord k x y n).toNat = k * 4096 + x.toNat * 256 + y.toNat * 16 + n := by
  have hx : x.toNat < 16 := hx
  have hy : y.toNat < 16 := hy
  simp only [pairWord, UInt16.toNat_ofNat']; omega

theorem kind_addressWord (hk : k < 16) (hn : nnn < 0x1000) : (addressWord k nnn).kind = k := by
  have hn' : nnn.toNat < 4096 := hn
  rw [Word.kind_eq, toNat_addressWord hk hn]; omega

theorem nnn_addressWord (hk : k < 16) (hn : nnn < 0x1000) : (addressWord k nnn).nnn = nnn := by
  have hn' : nnn.toNat < 4096 := hn
  rw [← UInt16.toNat_inj, Word.toNat_nnn, toNat_addressWord hk hn]; omega

theorem kind_byteWord (hk : k < 16) (hx : x < 16) : (byteWord k x nn).kind = k := by
  have hx' : x.toNat < 16 := hx
  have hn := nn.toNat_lt
  rw [Word.kind_eq, toNat_byteWord hk hx]; omega

theorem x_byteWord (hk : k < 16) (hx : x < 16) : (byteWord k x nn).x = x := by
  have hx' : x.toNat < 16 := hx
  have hn := nn.toNat_lt
  rw [← UInt64.toNat_inj, Word.toNat_x, toNat_byteWord hk hx]; omega

theorem nn_byteWord (hk : k < 16) (hx : x < 16) : (byteWord k x nn).nn = nn := by
  have hn := nn.toNat_lt
  rw [← UInt8.toNat_inj, Word.toNat_nn, toNat_byteWord hk hx]; omega

theorem kind_pairWord (hk : k < 16) (hx : x < 16) (hy : y < 16) (hn : n < 16) : (pairWord k x y n).kind = k := by
  have hx' : x.toNat < 16 := hx
  have hy' : y.toNat < 16 := hy
  rw [Word.kind_eq, toNat_pairWord hk hx hy hn]; omega

theorem x_pairWord (hk : k < 16) (hx : x < 16) (hy : y < 16) (hn : n < 16) : (pairWord k x y n).x = x := by
  have hx' : x.toNat < 16 := hx
  have hy' : y.toNat < 16 := hy
  rw [← UInt64.toNat_inj, Word.toNat_x, toNat_pairWord hk hx hy hn]; omega

theorem y_pairWord (hk : k < 16) (hx : x < 16) (hy : y < 16) (hn : n < 16) : (pairWord k x y n).y = y := by
  have hy' : y.toNat < 16 := hy
  rw [← UInt64.toNat_inj, Word.toNat_y, toNat_pairWord hk hx hy hn]; omega

theorem n_pairWord (hk : k < 16) (hx : x < 16) (hy : y < 16) (hn : n < 16) : (pairWord k x y n).n = n := by
  rw [Word.n_eq, toNat_pairWord hk hx hy hn]; omega

/-! ## A word is packed from its own fields -/

theorem addressWord_self {w : Word} (hk : w.kind = k) : addressWord k w.nnn = w := by
  have hw := w.toNat_lt
  subst hk
  rw [← UInt16.toNat_inj, toNat_addressWord w.kind_lt w.nnn_lt, Word.kind_eq, Word.toNat_nnn]
  omega

theorem byteWord_self {w : Word} (hk : w.kind = k) (hn : w.nn = nn) : byteWord k w.x nn = w := by
  have hw := w.toNat_lt
  subst hk hn
  rw [← UInt16.toNat_inj, toNat_byteWord w.kind_lt w.x_lt, Word.kind_eq, Word.toNat_x, Word.toNat_nn]
  omega

theorem pairWord_self {w : Word} (hk : w.kind = k) (hn : w.n = n) : pairWord k w.x w.y n = w := by
  have hw := w.toNat_lt
  subst hk hn
  rw [← UInt16.toNat_inj, toNat_pairWord w.kind_lt w.x_lt w.y_lt w.n_lt, Word.kind_eq, Word.toNat_x, Word.toNat_y,
    Word.n_eq]
  omega

end Instruction

theorem AluOp.ofNibble?_nibble (op : AluOp) : ofNibble? op.nibble = some op := by cases op <;> rfl

theorem AluOp.nibble_lt (op : AluOp) : op.nibble < 16 := by cases op <;> decide

theorem AluOp.nibble_of_ofNibble? {n : Nat} {op : AluOp} (h : ofNibble? n = some op) : op.nibble = n := by
  unfold ofNibble? at h
  split at h <;> cases h <;> rfl

/-! ## Decoding what is encoded -/

namespace Instruction

theorem decode?_encode (i : Instruction) (h : i.Fits) : decode? i.encode = some i := by
  cases i with
  | clearScreen | ret => rfl
  | machineRoutine nnn =>
    obtain ⟨hn, h0, hE⟩ := h
    -- with a leading zero the address is the word itself, so the two other words of the family have to be told apart
    have hw : addressWord 0 nnn = nnn := by
      rw [← UInt16.toNat_inj, toNat_addressWord (by decide) hn]; omega
    have hk : Word.kind nnn = 0 := by
      have := kind_addressWord (k := 0) (by decide) hn
      rwa [hw] at this
    have ha : Word.nnn nnn = nnn := by
      have := nnn_addressWord (k := 0) (by decide) hn
      rwa [hw] at this
    simp [decode?, encode, ofSystemWord, hw, hk, ha, h0, hE]
  | jump nnn | call nnn | loadIndex nnn | jumpOffset nnn =>
    have hn : nnn < 0x1000 := h
    simp [decode?, encode, kind_addressWord, nnn_addressWord, hn]
  | skipEqual x nn | skipNotEqual x nn | load x nn | add x nn | random x nn =>
    have hx : x < 16 := h
    simp [decode?, encode, kind_byteWord, x_byteWord, nn_byteWord, hx]
  | skipSame x y | skipDifferent x y =>
    obtain ⟨hx, hy⟩ := h
    simp [decode?, encode, kind_pairWord, x_pairWord, y_pairWord, n_pairWord, hx, hy]
  | alu op x y =>
    obtain ⟨hx, hy⟩ := h
    simp [decode?, encode, kind_pairWord, x_pairWord, y_pairWord, n_pairWord, hx, hy, op.nibble_lt,
      AluOp.ofNibble?_nibble]
  | draw x y n =>
    obtain ⟨hx, hy, hn⟩ := h
    have hn' : n.toNat < 16 := hn
    simp [decode?, encode, kind_pairWord, x_pairWord, y_pairWord, n_pairWord, hx, hy, hn']
  | skipPressed x | skipNotPressed x =>
    have hx : x < 16 := h
    simp [decode?, encode, ofKeyWord?, kind_byteWord, x_byteWord, nn_byteWord, hx]
  | _ x =>
    have hx : x < 16 := h
    simp [decode?, encode, ofMiscWord?, kind_byteWord, x_byteWord, nn_byteWord, hx]

/-! ## Encoding what is decoded -/

theorem ofSystemWord_fits {w : Word} (hk : w.kind = 0x0) : (ofSystemWord w).Fits ∧ (ofSystemWord w).encode = w := by
  have hw : addressWord 0x0 w.nnn = w := addressWord_self hk
  unfold ofSystemWord
  split_ifs with h0 hE
  · exact ⟨trivial, h0.symm⟩
  · exact ⟨trivial, hE.symm⟩
  · refine ⟨⟨w.nnn_lt, ?_, ?_⟩, hw⟩
    · intro h; rw [h] at hw; exact h0 hw.symm
    · intro h; rw [h] at hw; exact hE hw.symm

theorem fits_of_ofKeyWord? {w : Word} {i : Instruction} (hk : w.kind = 0xE) (h : ofKeyWord? w = some i) :
    i.Fits ∧ i.encode = w := by
  unfold ofKeyWord? at h
  split_ifs at h with hn hn <;> cases h <;> exact ⟨w.x_lt, byteWord_self hk hn⟩

theorem fits_of_ofMiscWord? {w : Word} {i : Instruction} (hk : w.kind = 0xF) (h : ofMiscWord? w = some i) :
    i.Fits ∧ i.encode = w := by
  unfold ofMiscWord? at h
  split_ifs at h with hn hn hn hn hn hn hn hn hn <;> cases h <;> exact ⟨w.x_lt, byteWord_self hk hn⟩

theorem fits_of_decode? {w : Word} {i : Instruction} (h : decode? w = some i) : i.Fits ∧ i.encode = w := by
  unfold decode? at h
  split at h
  case h_1 hk => cases h; exact ofSystemWord_fits hk
  case h_6 hk | h_10 hk =>
    split_ifs at h with hn
    cases h
    exact ⟨⟨w.x_lt, w.y_lt⟩, pairWord_self hk hn⟩
  case h_9 hk =>
    obtain ⟨op, ho, rfl⟩ := Option.map_eq_some_iff.1 h
    exact ⟨⟨w.x_lt, w.y_lt⟩, pairWord_self hk (AluOp.nibble_of_ofNibble? ho).symm⟩
  case h_14 hk =>
    cases h
    have hn : (UInt64.ofNat w.n).toNat = w.n := by
      have := w.n_lt
      rw [UInt64.toNat_ofNat']; omega
    refine ⟨⟨w.x_lt, w.y_lt, ?_⟩, pairWord_self hk hn.symm⟩
    rw [UInt64.lt_iff_toNat_lt, hn]; exact w.n_lt
  case h_15 hk => exact fits_of_ofKeyWord? hk h
  case h_16 =>
    have hk : w.kind = 0xF := by
      have := w.kind_lt
      grind
    exact fits_of_ofMiscWord? hk h
  case h_2 hk | h_3 hk | h_11 hk | h_12 hk => cases h; exact ⟨w.nnn_lt, addressWord_self hk⟩
  case h_4 hk | h_5 hk | h_7 hk | h_8 hk | h_13 hk => cases h; exact ⟨w.x_lt, byteWord_self hk rfl⟩

theorem decode?_eq_some_iff {w : Word} {i : Instruction} : decode? w = some i ↔ i.Fits ∧ i.encode = w :=
  ⟨fits_of_decode?, fun ⟨hf, hw⟩ => hw ▸ decode?_encode i hf⟩

/-- **A word decodes to the instruction that fits and has it, if there is one.** -/
theorem decode_eq_ok_iff {w : Word} {i : Instruction} : decode w = .ok i ↔ i.Fits ∧ i.encode = w := by
  rw [← decode?_eq_some_iff]
  unfold decode
  cases decode? w <;> simp

/-- **A word is refused, and named, exactly if no instruction that fits has it.** -/
theorem decode_eq_error_iff {w : Word} {e : WordError} :
    decode w = .error e ↔ e = .unknown w ∧ ∀ i : Instruction, i.Fits → i.encode ≠ w := by
  cases hd : decode w with
  | ok i =>
    obtain ⟨hf, hw⟩ := decode_eq_ok_iff.1 hd
    simp only [reduceCtorEq, false_iff, not_and, not_forall, not_not]
    exact fun _ => ⟨i, hf, hw⟩
  | error e' =>
    have he : e' = .unknown w := by
      unfold decode at hd
      split at hd <;> cases hd
      rfl
    have hno : ∀ i : Instruction, i.Fits → i.encode ≠ w := by
      intro i hf hw
      rw [decode_eq_ok_iff.2 ⟨hf, hw⟩] at hd
      cases hd
    rw [Except.error.injEq, he]
    exact ⟨fun h => ⟨h.symm, hno⟩, fun h => h.1.symm⟩

end Instruction

end ChipEight
