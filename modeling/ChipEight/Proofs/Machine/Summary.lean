/-
What an instruction comes to, without its steps. `effect` is the machine after it, how the program counter goes on and
what is called outside; or the reason why it fails. It looks at everything that can go wrong first and then gives all
that is changed at once.

The steps do not go that way: a result is written before its flag, a shift looks VX up again after VF was written, a
random byte is taken before its register is looked up, a block is checked twice. `instruction_eq` shows that it makes no
difference, but for the random byte: whatever can go wrong in an instruction goes wrong before anything else is done.

Results:
- `alu_eq`, `copyToMemory_eq`: the steps that come to one change;
- `instruction_eq`: every instruction comes to its `effect`;
- `execute_eq`: the same with the move of the program counter.
-/
import ChipEight.Machine.Execute
import Mathlib.Tactic.SplitIfs

namespace ChipEight

/-- a successful instruction -/
structure Effect where
  machine : Machine
  step : Step := .next
  operation : Operation := .plain
  events : List Event := []

/-- what an operation does to all registers -/
def Registers.alu (r : Registers) (op : AluOp) (x y : Fin 16) : Registers :=
  let vx := r.get x
  let vy := r.get y
  match op with
  | .load => r.put x vy
  | .or => r.put x (vx ||| vy)
  | .and => r.put x (vx &&& vy)
  | .xor => r.put x (vx ^^^ vy)
  | .add => (r.put x (vx + vy)).put flag (ofBool (255 < vx.toNat + vy.toNat))
  | .sub => (r.put x (vx - vy)).put flag (ofBool (vy ≤ vx))
  | .shiftRight =>
    let r := r.put flag (vx &&& 1)
    r.put x (r.get x >>> 1)
  | .subFrom => (r.put x (vy - vx)).put flag (ofBool (vx ≤ vy))
  | .shiftLeft =>
    let r := r.put flag (vx >>> 7)
    r.put x (r.get x <<< 1)

/-- whether an instruction takes a random byte -/
def Instruction.takesRandom : Instruction → Bool
  | .random .. => true
  | _ => false

namespace Machine

/-- Passes if `length` bytes from `start` on lie within the memory. The end is a sum at 64 bits; one that wrapped around
passes the bound and is no block. -/
def window (start length : Size) : Except (Failure CycleError) Unit :=
  if (start + length).toNat ≤ Memory.size then
    if start ≤ start + length then .ok () else .error .contract
  else
    .error (.error (.memoryAccess start length))

def effect (m : Machine) : Instruction → Except (Failure CycleError) Effect
  | .clearScreen => .ok { machine := { m with screen := .blank }, operation := .draw, events := [.clear] }
  | .ret =>
    match m.stack with
    | [] => .error (.error (.stack .empty))
    | a :: rest => .ok { machine := { m with stack := rest }, step := .jump a }
  | .machineRoutine nnn => .ok { machine := m, events := [.log (.routineIgnored nnn)] }
  | .jump nnn => do
    let a ← target nnn
    .ok { machine := m, step := .jump a }
  | .call nnn => do
    let a ← target nnn
    if m.stack.length < stackLimit then
      .ok { machine := { m with stack := m.pc :: m.stack }, step := .jump a }
    else
      .error (.error (.stack .full))
  | .skipEqual x nn => do
    let x ← Registers.lookup x
    .ok { machine := m, step := .skipIf (m.registers.get x == nn) }
  | .skipNotEqual x nn => do
    let x ← Registers.lookup x
    .ok { machine := m, step := .skipIf (m.registers.get x != nn) }
  | .skipSame x y => do
    let x ← Registers.lookup x
    let y ← Registers.lookup y
    .ok { machine := m, step := .skipIf (m.registers.get x == m.registers.get y) }
  | .load x nn => do
    let x ← Registers.lookup x
    .ok { machine := { m with registers := m.registers.put x nn } }
  | .add x nn => do
    let x ← Registers.lookup x
    .ok { machine := { m with registers := m.registers.put x (m.registers.get x + nn) } }
  | .alu op x y => do
    let x ← Registers.lookup x
    let y ← Registers.lookup y
    .ok { machine := { m with registers := m.registers.alu op x y } }
  | .skipDifferent x y => do
    let x ← Registers.lookup x
    let y ← Registers.lookup y
    .ok { machine := m, step := .skipIf (m.registers.get x != m.registers.get y) }
  | .loadIndex nnn => .ok { machine := { m with index := address nnn } }
  | .jumpOffset nnn => do
    let v0 ← Registers.lookup 0
    let a ← target (nnn + (m.registers.get v0).toUInt16)
    .ok { machine := m, step := .jump a }
  | .random x nn => do
    let x ← Registers.lookup x
    .ok { machine := { m with registers := m.registers.put x (nn &&& m.random.head), random := m.random.tail } }
  | .draw x y n => do
    let x ← Registers.lookup x
    let y ← Registers.lookup y
    window m.index.toUInt64 n
    let sprite := m.memory.read m.index.toNat n.toNat
    let column := m.registers.get x
    let row := m.registers.get y
    let hit := m.screen.collides sprite column.toNat row.toNat
    .ok {
      machine := { m with
        screen := m.screen.draw sprite column.toNat row.toNat
        registers := m.registers.put Registers.flag (Registers.ofBool hit) }
      operation := .draw
      events := [.draw column row sprite] }
  | .skipPressed x => do
    let x ← Registers.lookup x
    .ok { machine := m, step := .skipIf (m.keypad == some (m.registers.get x)) }
  | .skipNotPressed x => do
    let x ← Registers.lookup x
    .ok { machine := m, step := .skipIf (m.keypad != some (m.registers.get x)) }
  | .readDelay x => do
    let x ← Registers.lookup x
    .ok { machine := { m with registers := m.registers.put x m.delay.value } }
  | .awaitKey x =>
    .ok { machine := { m with awaiting := some x }, operation := .wait, events := [.log (.keyAwaited x)] }
  | .setDelay x => do
    let x ← Registers.lookup x
    .ok { machine := { m with delay := ⟨m.registers.get x⟩ } }
  | .setSound x => do
    let x ← Registers.lookup x
    .ok { machine := { m with sound := ⟨m.registers.get x⟩ } }
  | .addIndex x => do
    let x ← Registers.lookup x
    .ok { machine := { m with index := address (m.index + (m.registers.get x).toUInt16) } }
  | .pointGlyph x => do
    let x ← Registers.lookup x
    .ok { machine := { m with index := .ofNat ((m.registers.get x).toNat % 16 * Memory.glyphSize) } }
  | .storeDigits x => do
    let x ← Registers.lookup x
    window m.index.toUInt64 3
    .ok { machine := { m with memory := m.memory.write m.index.toNat (decimalDigits (m.registers.get x)) } }
  | .storeRegisters x => do
    window m.index.toUInt64 (x + 1)
    let x ← Registers.lookup x
    .ok { machine := { m with memory := m.memory.write m.index.toNat (m.registers.toList.take (x.val + 1)) } }
  | .fillRegisters x => do
    window m.index.toUInt64 (x + 1)
    let x ← Registers.lookup x
    .ok { machine := { m with registers := m.registers.fill (m.memory.read m.index.toNat (x.val + 1)) } }

end Machine

namespace Registers

theorem lookup_eq_ok_iff {x : Size} {i : Fin 16} : lookup x = .ok i ↔ i.val = x.toNat := by
  unfold lookup
  split_ifs with h
  · rw [Except.ok.injEq, Fin.ext_iff]
    exact eq_comm
  · simp only [false_iff]
    intro hi
    exact h (hi ▸ i.isLt)

theorem lookup_zero : lookup 0 = .ok 0 := rfl

/-- the registers up to one that there is, as a count -/
theorem toNat_succ_of_lookup {x : Size} {i : Fin 16} (h : lookup x = .ok i) : (x + 1).toNat = i.val + 1 := by
  have hi := i.isLt
  have hone : (1 : Size).toNat = 1 := rfl
  rw [lookup_eq_ok_iff] at h
  rw [UInt64.toNat_add, hone]
  omega

end Registers

namespace Handler

variable {m : Machine} {α β : Type}

/-! ## Accesses -/

/-- A check of the machine as it is decides an access: it comes to a value and a change, or nothing happens. -/
def decided (m : Machine) (r : Except (Failure CycleError) β) (value : β → α) (next : β → Machine) :
    Outcome Event Machine (Except (Failure CycleError) α) :=
  match r with
  | .ok b => .quiet (.ok (value b)) (next b)
  | .error f => .quiet (.error f) m

theorem register_eq (x : Size) : register x m = decided m (Registers.lookup x) m.registers.get fun _ => m := by
  unfold register
  cases Registers.lookup x <;> rfl

theorem setRegister_eq (x : Size) (v : UInt8) :
    setRegister x v m =
      decided m (Registers.lookup x) (fun _ => ()) fun i => { m with registers := m.registers.put i v } := by
  unfold setRegister
  cases Registers.lookup x <;> rfl

section Found

variable {x : Size} {i : Fin 16} (hx : Registers.lookup x = .ok i)
include hx

theorem register_of_lookup (m : Machine) : register x m = .quiet (.ok (m.registers.get i)) m := by
  rw [register_eq, hx]; rfl

theorem setRegister_of_lookup (m : Machine) (v : UInt8) :
    setRegister x v m = .quiet (.ok ()) { m with registers := m.registers.put i v } := by
  rw [setRegister_eq, hx]; rfl

end Found

theorem registersTo_eq (x : Size) :
    registersTo x m =
      decided m (Registers.lookup x) (fun i => m.registers.toList.take (i.val + 1)) fun _ => m := by
  unfold registersTo
  cases Registers.lookup x <;> rfl

theorem atIndex_eq (n : Size) : atIndex n m = decided m (Span.within m.index.toUInt64 n) id fun _ => m := by
  unfold atIndex
  rw [Attempt.reads_bind]
  cases Span.within m.index.toUInt64 n <;> rfl

theorem slice_eq (b : Span) :
    slice b m = decided m b.check (fun _ => m.memory.read b.start.toNat b.length) fun _ => m := by
  unfold slice
  cases b.check <;> rfl

theorem slice_of_checked {b : Span} (hb : b.check = .ok ()) :
    slice b m = .quiet (.ok (m.memory.read b.start.toNat b.length)) m := by
  rw [slice_eq, hb]; rfl

theorem slice_of_unsliced {b : Span} {f : Failure CycleError} (hb : b.check = .error f) :
    slice b m = .quiet (.error f) m := by
  rw [slice_eq, hb]; rfl

theorem copyToMemory_of_unsliced {b : Span} {source : Handler (List UInt8)} {f : Failure CycleError}
    (hb : b.check = .error f) : copyToMemory b source m = .quiet (.error f) m := by
  rw [copyToMemory, hb]; rfl

theorem copyToMemory_eq {b : Span} {source : Handler (List UInt8)} {r : Except (Failure CycleError) β}
    {bytes : β → List UInt8} (hb : b.check = .ok ()) (hs : source m = decided m r bytes fun _ => m)
    (hl : ∀ a, r = .ok a → (bytes a).length = b.length) :
    copyToMemory b source m =
      decided m r (fun _ => ()) fun a => { m with memory := m.memory.write b.start.toNat (bytes a) } := by
  rw [copyToMemory, hb, Attempt.lift_bind]
  cases r with
  | error f => exact Attempt.bind_of_error hs
  | ok a =>
    refine (Attempt.bind_of_ok hs).trans ?_
    rw [copied, if_pos (hl a rfl)]; rfl

/-- bytes that fit are copied -/
theorem copyToMemory_of_fits {start : Nat} {bytes : List UInt8} (h : start + bytes.length ≤ 4096) :
    copyToMemory ⟨.ofNat start, .ofNat (start + bytes.length)⟩ (pure bytes) m =
      .quiet (.ok ()) { m with memory := m.memory.write start bytes } := by
  have hstart : (UInt64.ofNat start).toNat = start := by rw [UInt64.toNat_ofNat']; omega
  have hstop : (UInt64.ofNat (start + bytes.length)).toNat = start + bytes.length := by
    rw [UInt64.toNat_ofNat']; omega
  have hb : Span.check ⟨.ofNat start, .ofNat (start + bytes.length)⟩ = .ok () := by
    refine if_pos ⟨?_, by rw [hstop]; exact h⟩
    rw [UInt64.le_iff_toNat_le, hstart, hstop]
    exact Nat.le_add_right _ _
  have hs : (pure bytes : Handler _) m = decided m (.ok ()) (fun _ => bytes) fun _ => m := rfl
  have hl : bytes.length = Span.length ⟨.ofNat start, .ofNat (start + bytes.length)⟩ := by
    rw [Span.length, hstart, hstop, Nat.add_sub_cancel_left]
  rw [copyToMemory_eq hb hs fun _ _ => hl, hstart]
  rfl

theorem copyToRegisters_of_unsliced {x : Size} {source : Handler (List UInt8)}
    (hs : source m = .quiet (.error .contract) m) :
    copyToRegisters x source m = .quiet (.error .contract) m := by
  unfold copyToRegisters Registers.lookup
  split_ifs with hx
  · rw [Attempt.lift_bind]
    exact Attempt.bind_of_error hs
  · rfl

theorem copyToRegisters_eq {x : Size} {source : Handler (List UInt8)} {bytes : List UInt8}
    (hs : source m = .quiet (.ok bytes) m) (hl : ∀ i, Registers.lookup x = .ok i → bytes.length = i.val + 1) :
    copyToRegisters x source m =
      decided m (Registers.lookup x) (fun _ => ()) fun _ => { m with registers := m.registers.fill bytes } := by
  unfold copyToRegisters
  cases hx : Registers.lookup x with
  | error f => rfl
  | ok i =>
    refine (Attempt.bind_of_ok hs).trans ?_
    rw [copied, if_pos (hl i hx)]; rfl

theorem alu_eq (op : AluOp) (x y : Size) :
    alu op x y m =
      decided m (do let i ← Registers.lookup x; let j ← Registers.lookup y; pure (i, j)) (fun _ => ()) fun p =>
        { m with registers := m.registers.alu op p.1 p.2 } := by
  cases hx : Registers.lookup x with
  | error f => exact Attempt.bind_of_error (by rw [register_eq, hx]; rfl)
  | ok i =>
    refine (Attempt.bind_of_ok (register_of_lookup hx m)).trans ?_
    cases hy : Registers.lookup y with
    | error f => exact Attempt.bind_of_error (by rw [register_eq, hy]; rfl)
    | ok j =>
      refine (Attempt.bind_of_ok (register_of_lookup hy m)).trans ?_
      cases op with
      | load | or | and | xor => exact setRegister_of_lookup hx m _
      | add | sub | subFrom => exact Attempt.bind_of_ok (setRegister_of_lookup hx m _)
      | shiftRight | shiftLeft =>
        -- VX is looked up again, in the registers with the new flag
        exact (Attempt.bind_of_ok (register_of_lookup hx _)).trans (setRegister_of_lookup hx _ _)

theorem push_eq (a : UInt16) :
    push a m =
      decided m (if m.stack.length < Machine.stackLimit then .ok () else .error (.error (.stack .full))) (fun _ => ())
        fun _ => { m with stack := a :: m.stack } := by
  unfold push
  rw [Attempt.reads_bind]
  split_ifs <;> rfl

/-! ## Blocks of memory -/

theorem window_eq (start n : Size) : Machine.window start n = Span.within start n >>= Span.check := by
  unfold Machine.window Span.within
  split_ifs with hle hback
  · exact (if_pos ⟨hback, hle⟩).symm
  · exact (if_neg fun h => hback h.1).symm
  · rfl

/-- a span that passed both checks is the block that was asked for -/
theorem block_of_checked {start n : Size} {b : Span} (hb : Span.within start n = .ok b) (hc : b.check = .ok ()) :
    b.start = start ∧ b.length = n.toNat ∧ b.start.toNat + b.length ≤ 4096 := by
  unfold Span.within at hb
  split_ifs at hb with hle
  cases hb
  unfold Span.check at hc
  split_ifs at hc with hin
  have hback : start.toNat ≤ (start + n).toNat := hin.1
  have hsum : (start + n).toNat = (start.toNat + n.toNat) % 2 ^ 64 := UInt64.toNat_add _ _
  have hlt := start.toNat_lt
  have hlt' := n.toNat_lt
  have hsize : (start + n).toNat ≤ 4096 := hle
  refine ⟨rfl, ?_, ?_⟩
  all_goals simp only [Span.length]; omega

/-! ## Instructions -/

/-- what the steps of an instruction come to that has this effect, from a machine on -/
def settle (m : Machine) : Except (Failure CycleError) Effect →
    Outcome Event Machine (Except (Failure CycleError) (Step × Operation))
  | .ok e => ⟨.ok (e.step, e.operation), e.machine, e.events⟩
  | .error f => .quiet (.error f) m

variable {k : α → Handler (Step × Operation)}

/-- an access against the check that decides it -/
theorem settle_bind {h : Handler α} {r : Except (Failure CycleError) β} {value : β → α} {next : β → Machine}
    {g : β → Except (Failure CycleError) Effect} (hh : h m = decided m r value next)
    (hk : ∀ b, r = .ok b → k (value b) (next b) = settle m (g b)) : (h >>= k) m = settle m (r >>= g) := by
  cases r with
  | error f => exact Attempt.bind_of_error hh
  | ok b => exact (Attempt.bind_of_ok hh).trans (hk b rfl)

theorem settle_lift {r : Except (Failure CycleError) α} {g : α → Except (Failure CycleError) Effect}
    (hk : ∀ a, r = .ok a → k a m = settle m (g a)) : (liftM r >>= k) m = settle m (r >>= g) := by
  have hr : (liftM r : Handler α) m = decided m r id fun _ => m := by cases r <;> rfl
  exact settle_bind hr hk

theorem settle_register {x : Size} {k : UInt8 → Handler (Step × Operation)}
    {g : Fin 16 → Except (Failure CycleError) Effect}
    (hk : ∀ i, Registers.lookup x = .ok i → k (m.registers.get i) m = settle m (g i)) :
    (register x >>= k) m = settle m (Registers.lookup x >>= g) :=
  settle_bind (register_eq x) hk

/-- a result is written to a register that was looked up before -/
theorem setRegister_bind {x : Size} {i : Fin 16} {v : UInt8} {k : Unit → Handler α}
    (hx : Registers.lookup x = .ok i) :
    (setRegister x v >>= k) m = k () { m with registers := m.registers.put i v } :=
  Attempt.bind_of_ok (setRegister_of_lookup hx m v)

/-- the last access, and the program counter goes on -/
theorem settle_last {h : Handler α} {r : Except (Failure CycleError) β} {value : β → α} {next : β → Machine}
    {step : Step} {operation : Operation} (hh : h m = decided m r value next) :
    (h >>= fun _ => pure (step, operation)) m =
      settle m (r >>= fun b => .ok { machine := next b, step, operation }) :=
  settle_bind hh fun _ _ => rfl

/-- The block at `I` is looked up and used at once. One that is no slice fails either way; one that is a slice is the
block that was asked for. -/
theorem settle_block {n : Size} {k : Span → Handler (Step × Operation)}
    {g : Unit → Except (Failure CycleError) Effect}
    (hf : ∀ b : Span, b.check = .error .contract → k b m = .quiet (.error .contract) m)
    (hk : ∀ b : Span, b.start.toNat = m.index.toNat → b.length = n.toNat → m.index.toNat + n.toNat ≤ 4096 →
      b.check = .ok () → k b m = settle m (g ())) :
    (atIndex n >>= k) m = settle m (Machine.window m.index.toUInt64 n >>= g) := by
  rw [window_eq, bind_assoc]
  refine settle_bind (atIndex_eq n) fun b hb => ?_
  cases hc : b.check with
  | ok =>
    obtain ⟨hstart, hlength, hfit⟩ := block_of_checked hb hc
    rw [hlength, hstart, UInt16.toNat_toUInt64] at hfit
    exact hk b (by rw [hstart, UInt16.toNat_toUInt64]) hlength hfit hc
  | error f =>
    have hf' : f = .contract := by
      unfold Span.check at hc
      split_ifs at hc
      cases hc; rfl
    subst hf'
    exact hf b hc

theorem instruction_eq (m : Machine) (i : Instruction) :
    instruction i m = settle (if i.takesRandom then { m with random := m.random.tail } else m) (m.effect i) := by
  cases i with
  | clearScreen | machineRoutine nnn | loadIndex nnn | awaitKey x => rfl
  | ret => rcases m with ⟨_, _, _, _, _, _ | ⟨a, rest⟩⟩ <;> rfl
  | jump nnn => exact settle_lift fun a _ => rfl
  | jumpOffset nnn =>
    refine settle_register fun i _ => ?_
    exact settle_lift fun a _ => rfl
  | call nnn =>
    refine settle_lift fun a _ => ?_
    rw [Attempt.reads_bind]
    refine (settle_last (push_eq m.pc)).trans ?_
    split_ifs <;> rfl
  | skipEqual x nn | skipNotEqual x nn => exact settle_register fun i _ => rfl
  | skipPressed x | skipNotPressed x =>
    rw [instruction, Attempt.reads_bind]
    exact settle_register fun i _ => rfl
  | skipSame x y | skipDifferent x y =>
    refine settle_register fun i _ => ?_
    exact settle_register fun j _ => rfl
  | load x nn => exact settle_last (setRegister_eq x nn)
  | readDelay x =>
    rw [instruction, Attempt.reads_bind]
    exact settle_last (setRegister_eq x _)
  | add x nn =>
    refine settle_register fun i hi => ?_
    exact setRegister_bind hi
  | alu op x y =>
    refine (settle_last (alu_eq op x y)).trans ?_
    simp only [bind_assoc, pure_bind]
    rfl
  | random x nn =>
    -- the byte is gone by the time that the register is looked up
    exact settle_last (m := { m with random := m.random.tail }) (setRegister_eq x _)
  | setDelay x | setSound x | addIndex x | pointGlyph x => exact settle_register fun i _ => rfl
  | draw x y n =>
    refine settle_register fun i _ => ?_
    refine settle_register fun j _ => ?_
    refine settle_block (fun b hc => Attempt.bind_of_error (slice_of_unsliced hc)) ?_
    intro b hstart hlength _ hc
    have hs := slice_of_checked (m := m) hc
    rw [hstart, hlength] at hs
    exact Attempt.bind_of_ok hs
  | storeDigits x =>
    refine settle_register fun i _ => ?_
    refine settle_block (fun b hc => Attempt.bind_of_error (copyToMemory_of_unsliced hc)) ?_
    intro b hstart hlength _ hc
    have hs : (pure (Machine.decimalDigits (m.registers.get i)) : Handler _) m =
        decided m (.ok ()) (fun _ => Machine.decimalDigits (m.registers.get i)) fun _ => m := rfl
    have h := copyToMemory_eq hc hs fun _ _ => hlength.symm
    rw [hstart] at h
    exact settle_last h
  | storeRegisters x =>
    refine settle_block (fun b hc => Attempt.bind_of_error (copyToMemory_of_unsliced hc)) ?_
    intro b hstart hlength _ hc
    have h := copyToMemory_eq hc (registersTo_eq (m := m) x) fun i hi => by
      rw [hlength, Registers.toNat_succ_of_lookup hi, List.length_take, Vector.length_toList]
      exact Nat.min_eq_left i.isLt
    rw [hstart] at h
    exact settle_last h
  | fillRegisters x =>
    refine settle_block (fun b hc => ?_) fun b hstart hlength hfit hc => ?_
    · exact Attempt.bind_of_error (copyToRegisters_of_unsliced (slice_of_unsliced hc))
    · have hs := slice_of_checked (m := m) hc
      rw [hstart, hlength] at hs
      have h := copyToRegisters_eq hs fun i hi => by
        rw [m.memory.length_read hfit, Registers.toNat_succ_of_lookup hi]
      refine settle_bind h fun i hi => ?_
      rw [Registers.toNat_succ_of_lookup hi]
      rfl

end Handler

namespace Machine

variable {m : Machine} {i : Instruction} {e : Effect} {f : Failure CycleError}

/-- **The steps of an instruction come to its effect.** One that goes well leaves the machine of its effect, with the
counter moved on. One that fails has done nothing, but that `CXNN` has taken its random byte. -/
theorem execute_eq (m : Machine) (i : Instruction) :
    m.execute i =
      match m.effect i with
      | .ok e => ⟨.ok e.operation, e.machine.follow e.step, e.events⟩
      | .error f => .quiet (.error f) (if i.takesRandom then { m with random := m.random.tail } else m) := by
  rw [execute, Handler.execute, Attempt.bind_apply, Handler.instruction_eq]
  cases m.effect i with
  | ok e => exact congrArg (Outcome.mk _ _) (List.append_nil _)
  | error f => rfl

theorem execute_of_effect (h : m.effect i = .ok e) :
    m.execute i = ⟨.ok e.operation, e.machine.follow e.step, e.events⟩ := by
  rw [execute_eq, h]

theorem execute_of_error (h : m.effect i = .error f) :
    m.execute i = .quiet (.error f) (if i.takesRandom then { m with random := m.random.tail } else m) := by
  rw [execute_eq, h]

/-- an instruction fails exactly if its effect is a failure -/
theorem execute_eq_error_iff : (m.execute i).value = .error f ↔ m.effect i = .error f := by
  cases h : m.effect i with
  | ok e => rw [execute_of_effect h]; simp
  | error g => rw [execute_of_error h]; simp [Outcome.quiet]

end Machine

end ChipEight
