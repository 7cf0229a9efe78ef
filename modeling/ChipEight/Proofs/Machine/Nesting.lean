/-
Calls and returns are nested. A call puts the address behind it on the stack, on top of what was there; as long as the
stack stays higher than before the call, that part of it stays as it is, whatever else the program does: inner calls,
jumps, refused calls and returns, waits for a key. The cycle that takes the stack back to its height before the call
is the return from this call.

No failing cycle moves the stack, and a cycle that does moves it by one address at its top.

Results:
- `perform_stack`: one action keeps the stack, puts an address on it or is a return;
- `nested_after`: a part of the stack that the run never goes below stays as it is;
- `returns_of_below`: and only a return to the address above it takes the stack down to it;
- `call_return_nested`: both for the part that a call leaves behind, and the return that takes it off.
-/
import ChipEight.Proofs.Machine.Invariant

namespace ChipEight.Machine

/-- whether the program goes on after an action -/
def Action.continues : Action → Bool
  | .reset | .load _ => false
  | _ => true

/-- the next cycle returns to the newest address on the stack -/
structure Returns (m : Machine) : Prop where
  awaiting : m.awaiting = none
  word : m.AtPc 0x00EE
  value : m.cycle.value = .ok .plain
  stack : m.stack = m.cycle.state.pc :: m.cycle.state.stack

/-! ## One action -/

variable {m : Machine}

theorem effect_call {nnn : UInt16} {e : Effect} (he : m.effect (.call nnn) = .ok e) :
    e.machine.stack = m.pc :: m.stack := by
  simp only [effect, bind_eq_ok] at he
  obtain ⟨a, -, he⟩ := he
  split_ifs at he
  cases he
  rfl

theorem effect_ret {e : Effect} (he : m.effect .ret = .ok e) :
    e.operation = .plain ∧ m.stack = e.step.apply e.machine.pc :: e.machine.stack := by
  simp only [effect] at he
  split at he
  · cases he
  · rename_i a rest hs
    cases he
    exact ⟨rfl, hs⟩

theorem poll_stack (m : Machine) (x : Size) : (m.poll x).state.stack = m.stack := by
  rcases m.poll_cases x with ⟨-, hp⟩ | ⟨key, -, -, hp⟩ | ⟨key, i, -, -, hp⟩ <;>
    exact congrArg (·.state.stack) hp

theorem cycle_stack (m : Machine) :
    m.cycle.state.stack = m.stack ∨ (∃ a, m.cycle.state.stack = a :: m.stack) ∨ m.Returns := by
  generalize ho : m.cycle = o
  have hc : Course m o := ho ▸ m.cycle_course
  cases hc with
  | polled x hx => exact .inl (m.poll_stack x)
  | unfetched hx hp | unknown w hx hw hi | failed i f hx hw hi hf => exact .inl rfl
  | done i e hx hw hi he =>
    rcases effect_stack he with hs | ⟨nnn, -, -, hs⟩ | ⟨rfl, -⟩
    · exact .inl hs
    · exact .inr (.inl ⟨_, hs⟩)
    · obtain ⟨hop, hs⟩ := effect_ret he
      refine .inr (.inr ⟨hx, hw, ?_, ?_⟩)
      · rw [ho, hop]
      · rw [ho]; exact hs

theorem perform_stack (m : Machine) {a : Action} (ha : a.continues = true) :
    (m.perform a).state.stack = m.stack ∨ (∃ r, (m.perform a).state.stack = r :: m.stack) ∨
      (a = .cycle ∧ m.Returns) := by
  cases a with
  | cycle =>
    rcases m.cycle_stack with hs | hs | hs
    · exact .inl hs
    · exact .inr (.inl hs)
    · exact .inr (.inr ⟨rfl, hs⟩)
  | tick =>
    left
    rw [perform_tick_state]
  | silence =>
    left
    rw [perform_silence_state]
  | press key =>
    left
    rw [perform_press_state]
  | release _ | clearKeys | setRandom _ => exact .inl rfl
  | reset | load _ => cases ha

/-! ## Runs -/

/-- one action that ends above a part of the stack leaves that part alone -/
theorem nested_perform {frame : List UInt16} {a : Action} (ha : a.continues = true) (hf : frame <:+ m.stack)
    (hd : frame.length ≤ (m.perform a).state.stack.length) : frame <:+ (m.perform a).state.stack := by
  rcases m.perform_stack ha with hs | ⟨r, hs⟩ | ⟨rfl, hr⟩
  · rw [hs]; exact hf
  · rw [hs]; exact hf.trans (List.suffix_cons r _)
  · have hs : m.stack = m.cycle.state.pc :: m.cycle.state.stack := hr.stack
    rw [hs] at hf
    rcases List.suffix_cons_iff.1 hf with rfl | hf
    · exact absurd hd (Nat.not_succ_le_self _)
    · exact hf

theorem nested_after {frame : List UInt16} (hf : frame <:+ m.stack) (actions : List Action)
    (hc : ∀ a ∈ actions, a.continues = true)
    (hd : ∀ past, past <+: actions → frame.length ≤ (m.after past).stack.length) :
    frame <:+ (m.after actions).stack := by
  induction actions generalizing m with
  | nil => exact hf
  | cons a rest ih =>
    have hn : frame <:+ (m.perform a).state.stack :=
      nested_perform (hc a List.mem_cons_self) hf (hd [a] (List.prefix_append [a] rest))
    refine ih hn (fun b hb => hc b (List.mem_cons_of_mem a hb)) fun past hp => ?_
    exact hd (a :: past) (List.cons_prefix_cons.2 ⟨rfl, hp⟩)

/-- the stack gets down to a part of it only by the return to the address above that part -/
theorem returns_of_below {r : UInt16} {frame : List UInt16} {a : Action} (ha : a.continues = true)
    (hf : r :: frame <:+ m.stack) (hlow : (m.perform a).state.stack.length ≤ frame.length) :
    a = .cycle ∧ m.Returns ∧ m.cycle.state.pc = r ∧ m.cycle.state.stack = frame := by
  have hlen : frame.length + 1 ≤ m.stack.length := hf.length_le
  rcases m.perform_stack ha with hs | ⟨r', hs⟩ | ⟨rfl, hr⟩
  · rw [hs] at hlow; omega
  · rw [hs, List.length_cons] at hlow; omega
  · have hlow : m.cycle.state.stack.length ≤ frame.length := hlow
    have hs : m.stack = m.cycle.state.pc :: m.cycle.state.stack := hr.stack
    rw [hs] at hf
    obtain ⟨hp, hrest⟩ := List.cons.inj (hf.eq_of_length_le (Nat.succ_le_succ hlow))
    exact ⟨rfl, hr, hp.symm, hrest.symm⟩

/-! ## A call and its return -/

/-- a call that goes well puts the address behind it on the stack -/
theorem cycle_call {w : Word} {nnn : UInt16} {op : Operation} (hx : m.awaiting = none) (hw : m.AtPc w)
    (hd : Instruction.decode w = .ok (.call nnn)) (hok : m.cycle.value = .ok op) :
    m.cycle.state.stack = (m.pc + 2) :: m.stack := by
  obtain ⟨hi, rfl⟩ := Instruction.decode_eq_ok_iff.1 hd
  rw [cycle_of_instruction hx hw hi] at hok ⊢
  cases he : (m.fetched (Instruction.call nnn).encode).effect (.call nnn) with
  | error f => cases (execute_eq_error_iff.2 he).symm.trans hok
  | ok e =>
    rw [execute_of_effect he]
    exact effect_call he

/-- **Calls and returns are nested.** Let a cycle call successfully, and let the program go on for as long as the stack
stays higher than before the call. Then the addresses from before the call and the one behind it are still at the
bottom of the stack, and the first action that takes the stack back to its height before the call is a return: it goes
on behind the call and leaves exactly the addresses from before it. -/
theorem call_return_nested (m : Machine) {w : Word} {nnn : UInt16} {op : Operation} (hx : m.awaiting = none)
    (hw : m.AtPc w) (hd : Instruction.decode w = .ok (.call nnn)) (hok : m.cycle.value = .ok op)
    (actions : List Action) (hc : ∀ a ∈ actions, a.continues = true)
    (hh : ∀ past, past <+: actions → m.stack.length < (m.cycle.state.after past).stack.length) :
    let n := m.cycle.state.after actions
    (m.pc + 2).toNat = m.pc.toNat + 2 ∧ m.cycle.state.stack = (m.pc + 2) :: m.stack ∧
      (∃ newer, n.stack = newer ++ (m.pc + 2) :: m.stack) ∧
      ∀ a, a.continues = true → (n.perform a).state.stack.length ≤ m.stack.length →
        a = .cycle ∧ n.awaiting = none ∧ n.AtPc 0x00EE ∧ n.cycle.value = .ok .plain ∧
          n.cycle.state.pc = m.pc + 2 ∧ n.cycle.state.stack = m.stack := by
  intro n
  have hcall := cycle_call hx hw hd hok
  have hpc : (m.pc + 2).toNat = m.pc.toNat + 2 := by
    obtain ⟨hlt, -⟩ := hw
    have hp : (m.pc + 2).toNat = (m.pc.toNat + 2) % 65536 := UInt16.toNat_add _ _
    omega
  have hframe : (m.pc + 2) :: m.stack <:+ n.stack :=
    nested_after (hcall ▸ List.suffix_rfl) actions hc hh
  obtain ⟨newer, hn⟩ := id hframe
  refine ⟨hpc, hcall, ⟨newer, hn.symm⟩, fun a ha hlow => ?_⟩
  obtain ⟨rfl, hr, hp, hs⟩ := returns_of_below ha hframe hlow
  exact ⟨rfl, hr.awaiting, hr.word, hr.value, hp, hs⟩

/-- a call whose routine makes a call of its own; that one tries a call to an odd address and returns -/
def nestedCalls : Rom := ⟨"", [0x22, 0x04, 0x12, 0x02, 0x22, 0x08, 0x00, 0xEE, 0x22, 0x09, 0x00, 0xEE], by decide⟩

/-- the outer return, after an inner call, a refused one and the inner return -/
theorem nestedCalls_return :
    let m := (powerOn (.ofScript #[])).after [.load nestedCalls]
    let n := m.cycle.state.after [.cycle, .tick, .cycle, .cycle]
    m.cycle.value = .ok .plain ∧ (n.perform .cycle).state.stack.length ≤ m.stack.length ∧ n.AtPc 0x00EE ∧
      n.cycle.state.pc = 0x202 ∧ n.cycle.state.stack = [] := by
  intro m n
  have hw : m.AtPc 0x2204 := fetch_eq_ok_iff.1 (by decide +kernel)
  have hd : Instruction.decode 0x2204 = .ok (.call 0x204) := by decide +kernel
  have hok : m.cycle.value = .ok .plain := by decide +kernel
  have hh : ∀ past ∈ List.inits [Action.cycle, .tick, .cycle, .cycle],
      m.stack.length < (m.cycle.state.after past).stack.length := by
    decide +kernel
  obtain ⟨-, -, -, h⟩ := call_return_nested m (by decide +kernel) hw hd hok [.cycle, .tick, .cycle, .cycle]
    (by simp [Action.continues]) fun past hp => hh past ((List.mem_inits _ _).2 hp)
  obtain ⟨-, -, hret, -, hp, hs⟩ := h .cycle rfl (by decide +kernel)
  refine ⟨hok, by decide +kernel, hret, ?_, ?_⟩
  · rw [hp]; decide +kernel
  · rw [hs]; decide +kernel

end ChipEight.Machine
