/-
Fetching, and the courses a cycle takes. A word is read at two neighbouring bytes, high byte first; at the program
counter that is possible exactly if both lie within the memory.

Results:
- `fetch_eq_ok_iff`, `fetch_eq_error_iff`: what stands at the program counter is what is fetched, and the only failure
  names the counter and the size of the memory;
- `poll_cases`: a poll finds no key, or one that the awaiting register gets, if there is that register;
- `cycle_course`: a cycle polls, or fails to fetch, or fetches and refuses the word, fails or runs.
-/
import ChipEight.Machine.Cycle
import ChipEight.Proofs.Machine.Effect

namespace ChipEight

/-! ## Words in bytes -/

namespace Word

theorem toNat_ofBytes (high low : UInt8) : (ofBytes high low).toNat = high.toNat * 256 + low.toNat := by
  have hh := high.toNat_lt
  have hl := low.toNat_lt
  simp only [ofBytes, UInt16.toNat_ofNat']; omega

theorem read_of_lt {data : Array UInt8} {p : Size} (hp : p.toNat + 1 < 2 ^ 64) (h : p.toNat + 1 < data.size) :
    read data p = .ok (ofBytes data[p.toNat] data[p.toNat + 1]) := by
  have h1 : (p + 1).toNat = p.toNat + 1 := by
    rw [UInt64.toNat_add]; exact Nat.mod_eq_of_lt hp
  have hlt : p.toNat < data.size := by omega
  unfold read
  rw [h1, if_pos h, Array.getElem?_eq_getElem hlt, Array.getElem?_eq_getElem h]

theorem read_of_le {data : Array UInt8} {p : Size} (hp : p.toNat + 1 < 2 ^ 64) (h : data.size ≤ p.toNat + 1) :
    read data p = .error (.error (.outside p data.size)) := by
  have h1 : (p + 1).toNat = p.toNat + 1 := by
    rw [UInt64.toNat_add]; exact Nat.mod_eq_of_lt hp
  unfold read
  rw [h1, if_neg (by omega)]

end Word

namespace Machine

/-! ## The word at the program counter -/

/-- the word `w` stands in memory at the program counter, its high byte first -/
def AtPc (m : Machine) (w : Word) : Prop :=
  ∃ h : m.pc.toNat + 1 < 4096, w.toNat = m.memory[m.pc.toNat].toNat * 256 + m.memory[m.pc.toNat + 1].toNat

theorem fetch_of_lt {m : Machine} (h : m.pc.toNat + 1 < 4096) :
    m.fetch = .ok (.ofBytes m.memory[m.pc.toNat] m.memory[m.pc.toNat + 1]) := by
  have hp : m.pc.toUInt64.toNat = m.pc.toNat := by simp
  unfold fetch
  rw [Word.read_of_lt (by rw [hp]; omega) (by rw [hp]; simpa using h)]
  simp only [hp]
  rfl

theorem fetch_of_le {m : Machine} (h : 4096 ≤ m.pc.toNat + 1) :
    m.fetch = .error (.error (.outside m.pc.toUInt64 4096)) := by
  have hp : m.pc.toUInt64.toNat = m.pc.toNat := by simp
  have hlt := m.pc.toNat_lt
  unfold fetch
  rw [Word.read_of_le (by rw [hp]; omega) (by rw [hp]; simpa using h)]
  simp

theorem fetch_eq_ok_iff {m : Machine} {w : Word} : m.fetch = .ok w ↔ m.AtPc w := by
  by_cases h : m.pc.toNat + 1 < 4096
  · rw [fetch_of_lt h, Except.ok.injEq, ← UInt16.toNat_inj, Word.toNat_ofBytes]
    exact ⟨fun hw => ⟨h, hw.symm⟩, fun ⟨_, hw⟩ => hw.symm⟩
  · rw [fetch_of_le (by omega)]
    simp only [reduceCtorEq, false_iff]
    intro ⟨h', _⟩; exact h h'

theorem fetch_eq_error_iff {m : Machine} {f : Failure WordError} :
    m.fetch = .error f ↔ f = .error (.outside m.pc.toUInt64 4096) ∧ 4096 ≤ m.pc.toNat + 1 := by
  by_cases h : m.pc.toNat + 1 < 4096
  · rw [fetch_of_lt h]
    simp only [reduceCtorEq, false_iff]
    intro ⟨_, h'⟩; omega
  · rw [fetch_of_le (by omega), Except.error.injEq]
    exact ⟨fun hf => ⟨hf.symm, by omega⟩, fun hf => hf.1.symm⟩

theorem AtPc.unique {m : Machine} {v w : Word} (hv : m.AtPc v) (hw : m.AtPc w) : v = w := by
  have := (fetch_eq_ok_iff.2 hv).symm.trans (fetch_eq_ok_iff.2 hw)
  exact Except.ok.inj this

/-- the counter behind a fetched word does not wrap around -/
theorem AtPc.toNat_pc {m : Machine} {w : Word} (h : m.AtPc w) : (m.pc + 2).toNat = m.pc.toNat + 2 := by
  obtain ⟨hlt, -⟩ := h
  have hp : (m.pc + 2).toNat = (m.pc.toNat + 2) % 65536 := UInt16.toNat_add _ _
  omega

/-! ## Courses of a cycle -/

section Poll

variable {m : Machine} {x : Size} {key : UInt8}

theorem poll_of_released (hk : m.keypad = none) : m.poll x = .quiet (.ok .wait) m := by
  have hr : (Attempt.reads keypad : Handler _) m = .quiet (.ok none) m := by rw [Attempt.reads, hk]
  exact Attempt.bind_of_ok hr

theorem poll_of_held (hk : m.keypad = some key) : m.poll x = Handler.takeKey x key m := by
  have hr : (Attempt.reads keypad : Handler _) m = .quiet (.ok (some key)) m := by rw [Attempt.reads, hk]
  exact Attempt.bind_of_ok hr

/-- the key is noted before the register is looked up -/
theorem poll_of_missing (hk : m.keypad = some key) (hx : ¬ x < 16) :
    m.poll x = ⟨.error .contract, m, [.log (.keyTaken key x)]⟩ := by
  have hi : Registers.lookup x = .error .contract := dif_neg hx
  rw [poll_of_held hk, Handler.takeKey, Handler.setRegister, hi]; rfl

theorem poll_of_pressed {i : Fin 16} (hk : m.keypad = some key) (hi : Registers.lookup x = .ok i) :
    m.poll x =
      ⟨.ok .plain, { m with registers := m.registers.put i key, awaiting := none }, [.log (.keyTaken key x)]⟩ := by
  rw [poll_of_held hk, Handler.takeKey, Handler.setRegister, hi]; rfl

end Poll

theorem poll_cases (m : Machine) (x : Size) :
    (m.keypad = none ∧ m.poll x = .quiet (.ok .wait) m) ∨
    (∃ key, m.keypad = some key ∧ ¬ x < 16 ∧ m.poll x = ⟨.error .contract, m, [.log (.keyTaken key x)]⟩) ∨
    ∃ key i, m.keypad = some key ∧ Registers.lookup x = .ok i ∧
      m.poll x =
        ⟨.ok .plain, { m with registers := m.registers.put i key, awaiting := none }, [.log (.keyTaken key x)]⟩ := by
  rcases Option.eq_none_or_eq_some m.keypad with hk | ⟨key, hk⟩
  · exact .inl ⟨hk, poll_of_released hk⟩
  · by_cases hx : x < 16
    · have hi := Registers.lookup_of_lt hx
      exact .inr (.inr ⟨key, _, hk, hi, poll_of_pressed hk hi⟩)
    · exact .inr (.inl ⟨key, hk, hx, poll_of_missing hk hx⟩)

theorem cycle_of_outside {m : Machine} (hx : m.awaiting = none) (hp : 4096 ≤ m.pc.toNat + 1) :
    m.cycle = .quiet (.error (.error (.word (.outside m.pc.toUInt64 4096)))) m := by
  simp only [cycle, hx, fetch_of_le hp, fetchFailure]

theorem cycle_of_unknown {m : Machine} {w : Word} (hx : m.awaiting = none) (hw : m.AtPc w)
    (hi : ∀ i : Instruction, i.Fits → i.encode ≠ w) :
    m.cycle = .quiet (.error (.error (.word (.unknown w)))) (m.fetched w) := by
  simp only [cycle, hx, fetch_eq_ok_iff.2 hw, runWord, Instruction.decode_eq_error_iff.2 ⟨rfl, hi⟩]

theorem cycle_of_instruction {m : Machine} {i : Instruction} (hx : m.awaiting = none) (hw : m.AtPc i.encode)
    (hi : i.Fits) :
    m.cycle =
      let o := (m.fetched i.encode).execute i
      { o with events := .log (.decoded i.encode i) :: o.events } := by
  simp only [cycle, hx, fetch_eq_ok_iff.2 hw, runWord, Instruction.decode_eq_ok_iff.2 ⟨hi, rfl⟩]

/-- the courses a cycle can take, each with what the cycle comes to -/
inductive Course (m : Machine) : Outcome Event Machine Report → Prop where
  /-- a key is awaited in `x` -/
  | polled (x : Size) (hx : m.awaiting = some x) : Course m (m.poll x)
  /-- no word stands at the program counter -/
  | unfetched (hx : m.awaiting = none) (hp : 4096 ≤ m.pc.toNat + 1) :
    Course m (.quiet (.error (.error (.word (.outside m.pc.toUInt64 4096)))) m)
  /-- the word there is none of an instruction -/
  | unknown (w : Word) (hx : m.awaiting = none) (hw : m.AtPc w) (hi : ∀ i : Instruction, i.Fits → i.encode ≠ w) :
    Course m (.quiet (.error (.error (.word (.unknown w)))) (m.fetched w))
  /-- the instruction there fails -/
  | failed (i : Instruction) (f : Failure CycleError) (hx : m.awaiting = none) (hw : m.AtPc i.encode) (hi : i.Fits)
    (hf : (m.fetched i.encode).effect i = .error f) :
    Course m ⟨.error f, m.fetched i.encode, [.log (.decoded i.encode i)]⟩
  /-- the instruction there takes effect -/
  | done (i : Instruction) (e : Effect) (hx : m.awaiting = none) (hw : m.AtPc i.encode) (hi : i.Fits)
    (he : (m.fetched i.encode).effect i = .ok e) :
    Course m ⟨.ok e.operation, e.machine.follow e.step, .log (.decoded i.encode i) :: e.events⟩

theorem cycle_course (m : Machine) : Course m m.cycle := by
  cases hx : m.awaiting with
  | some x =>
    have hc : m.cycle = m.poll x := by simp only [cycle, hx]
    exact hc ▸ .polled x hx
  | none =>
    cases hf : m.fetch with
    | error f =>
      have hp := (fetch_eq_error_iff.1 hf).2
      exact cycle_of_outside hx hp ▸ .unfetched hx hp
    | ok w =>
      have hw := fetch_eq_ok_iff.1 hf
      cases hd : Instruction.decode w with
      | error e =>
        have hi := (Instruction.decode_eq_error_iff.1 hd).2
        exact cycle_of_unknown hx hw hi ▸ .unknown w hx hw hi
      | ok i =>
        obtain ⟨hi, rfl⟩ := Instruction.decode_eq_ok_iff.1 hd
        rw [cycle_of_instruction hx hw hi]
        cases he : (m.fetched i.encode).effect i with
        | error f =>
          rw [execute_of_refused hi he]
          exact .failed i f hx hw hi he
        | ok e =>
          rw [execute_of_effect he]
          exact .done i e hx hw hi he

end Machine

end ChipEight
