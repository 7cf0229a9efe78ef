/-
Where the program goes on. The fetch moves the program counter behind the word, and the instruction moves it once more
if it jumps or skips: jumps and calls to their address, `BNNN` to its address plus V0 within the memory, a return to
the newest address of the stack, a skip whose condition holds past the next word. Every other instruction that goes
well is followed by the next one.

The skips come in pairs with opposite conditions. In every state one of a pair skips and the other does nothing.

Results:
- `effect_branch`: what a skip comes to, by its condition;
- `leads_of_effect`: the counter behind a cycle that runs an instruction;
- `oneSkips_of_opposite`: of two skips with opposite conditions one skips and the other does nothing;
- `proper_reached`: the keys of a machine are those of its keypad;
- `counter_law`: the counter behind every cycle, and the pairs of skips.
-/
import ChipEight.Proofs.Machine.Frame

namespace ChipEight

namespace Instruction

def jumps : Instruction → Bool
  | .jump _ | .call _ | .jumpOffset _ | .ret => true
  | _ => false

/-- the instruction skips the next one, if its condition holds -/
def branches : Instruction → Bool
  | .skipEqual .. | .skipNotEqual .. | .skipSame .. | .skipDifferent .. | .skipPressed _ | .skipNotPressed _ => true
  | _ => false

end Instruction

namespace Keypad

/-- no key is held, or one that the keypad has -/
def Proper (k : Keypad) : Prop := ∀ key, k = some key → key < 16

theorem proper_released : Proper released := nofun

theorem proper_press {key : UInt8} {k : Keypad} (h : press key = .ok k) : k.Proper := by
  unfold press at h
  split_ifs at h with hlt
  cases h
  intro held hheld
  cases hheld
  exact hlt

theorem Proper.release {k : Keypad} (h : k.Proper) (key : UInt8) : (k.release key).Proper := by
  unfold Keypad.release
  split_ifs
  · exact proper_released
  · exact h

end Keypad

namespace Machine

/-- what the register with this number holds, zero if there is none -/
def v (m : Machine) (x : Size) : UInt8 := m.registers[x.toNat]?.getD 0

/-- the condition of a skip holds -/
def Skips (m : Machine) : Instruction → Prop
  | .skipEqual x nn => m.v x = nn
  | .skipNotEqual x nn => m.v x ≠ nn
  | .skipSame x y => m.v x = m.v y
  | .skipDifferent x y => m.v x ≠ m.v y
  | .skipPressed x => m.keypad = some (m.v x)
  | .skipNotPressed x => m.keypad ≠ some (m.v x)
  | _ => False

/-- where the counter stands behind a cycle that found it at `m` and ran `i` there -/
structure Leads (m : Machine) (i : Instruction) (o : Outcome Event Machine Report) : Prop where
  jump : ∀ nnn, i = .jump nnn ∨ i = .call nnn → o.state.pc = nnn
  jumpOffset : ∀ nnn, i = .jumpOffset nnn → o.state.pc.toNat = (nnn.toNat + (m.registers.get 0).toNat) % 4096
  ret : i = .ret → m.stack = o.state.pc :: o.state.stack
  skip : m.Skips i → o.state.pc.toNat = m.pc.toNat + 4
  next : i.jumps = false → ¬ m.Skips i → o.state.pc.toNat = m.pc.toNat + 2

/-- run behind its fetch, the instruction skips the next one and does nothing else -/
def JustSkips (m : Machine) (i : Instruction) : Prop := m.execute i = .quiet (.ok .plain) { m with pc := m.pc + 2 }

/-- run behind its fetch, the instruction does nothing -/
def JustPasses (m : Machine) (i : Instruction) : Prop := m.execute i = .quiet (.ok .plain) m

variable {m : Machine} {i : Instruction} {e : Effect}

/-! ## Steps -/

theorem get_eq_v {x : Size} (hx : x < 16) : m.registers.get ⟨x.toNat, hx⟩ = m.v x := by
  rw [v, Vector.getElem?_eq_getElem (show x.toNat < 16 from hx), Option.getD_some]
  rfl

theorem skipIf_iff {c : Bool} {p : Prop} (h : c = true ↔ p) :
    (p → Step.skipIf c = .skip) ∧ (¬ p → Step.skipIf c = .next) := by
  cases c with
  | true => exact ⟨fun _ => rfl, fun hp => absurd (h.1 rfl) hp⟩
  | false => exact ⟨fun hp => absurd (h.2 hp) Bool.false_ne_true, fun _ => rfl⟩

/-- what a skip comes to, by its condition -/
theorem effect_branch (hi : i.Fits) (hb : i.branches = true) :
    (m.Skips i → m.effect i = .ok { machine := m, step := .skip }) ∧
      (¬ m.Skips i → m.effect i = .ok { machine := m, step := .next }) := by
  suffices h : ∃ c : Bool, (c = true ↔ m.Skips i) ∧ m.effect i = .ok { machine := m, step := .skipIf c } by
    obtain ⟨c, hc, he⟩ := h
    obtain ⟨hskip, hnext⟩ := skipIf_iff hc
    rw [he]
    exact ⟨fun h => by rw [hskip h], fun h => by rw [hnext h]⟩
  cases i with
  | skipEqual x nn | skipNotEqual x nn | skipPressed x | skipNotPressed x =>
    simp only [effect, Registers.lookup_of_lt (show x < 16 from hi), get_eq_v, bind, Except.bind]
    exact ⟨_, by simp [Skips], rfl⟩
  | skipSame x y | skipDifferent x y =>
    simp only [effect, Registers.lookup_of_lt hi.1, Registers.lookup_of_lt hi.2, get_eq_v, bind, Except.bind]
    exact ⟨_, by simp [Skips], rfl⟩
  | _ => cases hb

theorem Skips.branches (h : m.Skips i) : i.branches = true := by
  cases i with
  | skipEqual x nn | skipNotEqual x nn | skipSame x y | skipDifferent x y | skipPressed x | skipNotPressed x => rfl
  | _ => cases h

/-- an instruction that neither jumps nor may skip goes on with the next one -/
theorem effect_step_next (he : m.effect i = .ok e) (hj : i.jumps = false) (hb : i.branches = false) :
    e.step = .next := by
  cases i with
  | jump nnn | call nnn | jumpOffset nnn | ret => cases hj
  | skipEqual x nn | skipNotEqual x nn | skipSame x y | skipDifferent x y | skipPressed x | skipNotPressed x => cases hb
  | _ =>
    simp only [effect, bind_eq_ok] at he
    grind

theorem effect_target {nnn : UInt16} (hn : nnn < 0x1000) (hi : i = .jump nnn ∨ i = .call nnn)
    (he : m.effect i = .ok e) : e.step = .jump nnn := by
  rcases hi with rfl | rfl <;> simp only [effect, bind_eq_ok, target_eq_ok_iff, address_of_lt hn] at he
  · obtain ⟨a, ⟨rfl, -⟩, he⟩ := he
    cases he
    rfl
  · obtain ⟨a, ⟨rfl, -⟩, he⟩ := he
    split_ifs at he
    cases he
    rfl

theorem effect_offset {nnn : UInt16} (he : m.effect (.jumpOffset nnn) = .ok e) :
    e.step = .jump (address (nnn + (m.registers.get 0).toUInt16)) := by
  simp only [effect, Registers.lookup_zero, bind_eq_ok, Except.ok.injEq, exists_eq_left', target_eq_ok_iff] at he
  obtain ⟨a, ⟨rfl, -⟩, he⟩ := he
  cases he
  rfl

/-! ## One cycle -/

theorem leads_of_effect (hi : m.upcoming = some i) (he : (m.fetched i.encode).effect i = .ok e) :
    m.Leads i m.cycle := by
  obtain ⟨-, hfits, hw⟩ := upcoming_eq_some_iff.1 hi
  have hlt := hw.1
  have hpc : m.cycle.state.pc = e.step.apply (m.pc + 2) := by
    rw [cycle_of_effect hi he]
    show e.step.apply e.machine.pc = _
    rw [effect_pc he]
    rfl
  have hfetched : (m.pc + 2).toNat = m.pc.toNat + 2 := hw.toNat_pc
  have hskipped : (m.pc + 2 + 2).toNat = ((m.pc + 2).toNat + 2) % 65536 := UInt16.toNat_add _ _
  -- the fetch has no part in a condition
  have hcond : (m.fetched i.encode).Skips i ↔ m.Skips i := Iff.rfl
  refine ⟨?_, ?_, ?_, ?_, ?_⟩
  · intro nnn hj
    have hn : nnn < 0x1000 := by rcases hj with rfl | rfl <;> exact hfits
    rw [hpc, effect_target hn hj he]
    rfl
  · rintro nnn rfl
    rw [hpc, effect_offset he]
    exact toNat_address_offset hfits
  · rintro rfl
    rw [cycle_of_effect hi he]
    exact (effect_ret he).2
  · intro hs
    cases ((effect_branch hfits hs.branches).1 (hcond.2 hs)).symm.trans he
    rw [hpc]
    show (m.pc + 2 + 2).toNat = _
    omega
  · intro hj hs
    have hstep : e.step = .next := by
      cases hb : i.branches with
      | true =>
        cases ((effect_branch hfits hb).2 (fun h => hs (hcond.1 h))).symm.trans he
        rfl
      | false => exact effect_step_next he hj hb
    rw [hpc, hstep]
    exact hfetched

/-! ## Pairs of skips -/

/-- run behind its fetch, one of the two skips and the other does nothing -/
def OneSkips (m : Machine) (i j : Instruction) : Prop :=
  (m.JustSkips i ∧ m.JustPasses j) ∨ (m.JustPasses i ∧ m.JustSkips j)

theorem execute_branch (hi : i.Fits) (hb : i.branches = true) :
    (m.Skips i → m.JustSkips i) ∧ (¬ m.Skips i → m.JustPasses i) := by
  obtain ⟨hskip, hnext⟩ := effect_branch (m := m) hi hb
  refine ⟨fun h => ?_, fun h => ?_⟩
  · exact execute_of_effect (hskip h)
  · exact execute_of_effect (hnext h)

theorem not_justPasses (h : m.JustSkips i) : ¬ m.JustPasses i := by
  intro hp
  have hpc : m.pc + 2 = m.pc := congrArg (·.state.pc) (h.symm.trans hp)
  have hsum : (m.pc + 2).toNat = (m.pc.toNat + 2) % 65536 := UInt16.toNat_add _ _
  rw [hpc] at hsum
  omega

theorem oneSkips_of_opposite {j : Instruction} (hi : i.Fits) (hj : j.Fits) (hbi : i.branches = true)
    (hbj : j.branches = true) (h : m.Skips i ↔ ¬ m.Skips j) : m.OneSkips i j := by
  by_cases hs : m.Skips j
  · exact .inr ⟨(execute_branch hi hbi).2 (fun hsi => h.1 hsi hs), (execute_branch hj hbj).1 hs⟩
  · exact .inl ⟨(execute_branch hi hbi).1 (h.2 hs), (execute_branch hj hbj).2 hs⟩

/-! ## Keys -/

theorem cycle_keypad (m : Machine) : m.cycle.state.keypad = m.keypad := by
  generalize ho : m.cycle = o
  have hc : Course m o := ho ▸ m.cycle_course
  cases hc with
  | polled x hx =>
    rcases m.poll_cases x with ⟨-, hp⟩ | ⟨key, -, -, hp⟩ | ⟨key, i, -, -, hp⟩ <;>
      exact congrArg (·.state.keypad) hp
  | unfetched hx hp | unknown w hx hw hi | failed i f hx hw hi hf => rfl
  | done i e hx hw hi he => exact effect_keypad (m := m.fetched i.encode) he

theorem proper_perform (h : m.keypad.Proper) (a : Action) : (m.perform a).state.keypad.Proper := by
  cases a with
  | cycle =>
    show m.cycle.state.keypad.Proper
    rw [cycle_keypad]
    exact h
  | tick =>
    rw [perform_tick_state]
    exact h
  | silence =>
    rw [perform_silence_state]
    exact h
  | reset =>
    rw [perform_reset_state]
    exact h
  | load rom =>
    rw [perform_load_state]
    exact h
  | press key =>
    simp only [perform, press]
    cases hk : Keypad.press key with
    | ok keypad => exact Keypad.proper_press hk
    | error e => exact h
  | release key => exact h.release key
  | clearKeys => exact Keypad.proper_released
  | setRandom random => exact h

theorem proper_reached (h : m.Reached) : m.keypad.Proper := by
  obtain ⟨random, actions, rfl⟩ := h
  exact (trace_keeps (P := fun m => m.keypad.Proper) Keypad.proper_released fun s _ hs => proper_perform hs s.action).2

/-- **Where the program goes on.** A cycle that fetches a word and goes well has run the instruction of this word, and
the counter stands where this instruction `Leads` to. Of `3XNN` and `4XNN`, of `5XY0` and `9XY0`, and of `EX9E` and
`EXA1` with the same operands one skips and the other does nothing, in every state; `5XX0` skips in any case, `9XX0` in
none, and neither does `EX9E` if no key is held or VX is no key. -/
theorem counter_law (m : Machine) :
    (m.awaiting = none → ∀ op, m.cycle.value = .ok op → ∃ i, m.upcoming = some i ∧ m.Leads i m.cycle) ∧
    (∀ i, m.JustSkips i → ¬ m.JustPasses i) ∧
    (∀ x y nn, x < 16 → y < 16 →
      m.OneSkips (.skipEqual x nn) (.skipNotEqual x nn) ∧
      m.OneSkips (.skipSame x y) (.skipDifferent x y) ∧
      m.OneSkips (.skipPressed x) (.skipNotPressed x) ∧
      m.JustSkips (.skipSame x x) ∧ m.JustPasses (.skipDifferent x x)) ∧
    (m.Reached → m.keypad.Proper) ∧
    ∀ x < 16, m.keypad.Proper → m.keypad = none ∨ 15 < m.v x → m.JustPasses (.skipPressed x) := by
  refine ⟨fun hx op ho => ?_, fun i => not_justPasses, fun x y nn hx hy => ⟨?_, ?_, ?_, ?_, ?_⟩, proper_reached, ?_⟩
  · obtain ⟨i, e, hi, he⟩ := effect_of_ok hx ho
    exact ⟨i, hi, leads_of_effect hi he⟩
  · exact oneSkips_of_opposite hx hx rfl rfl not_not.symm
  · exact oneSkips_of_opposite ⟨hx, hy⟩ ⟨hx, hy⟩ rfl rfl not_not.symm
  · exact oneSkips_of_opposite hx hx rfl rfl not_not.symm
  · exact (execute_branch (i := .skipSame x x) ⟨hx, hx⟩ rfl).1 rfl
  · exact (execute_branch (i := .skipDifferent x x) ⟨hx, hx⟩ rfl).2 fun h => h rfl
  · intro x hx hproper hno
    refine (execute_branch (i := .skipPressed x) hx rfl).2 fun hheld => ?_
    have hheld : m.keypad = some (m.v x) := hheld
    rcases hno with hnone | hlarge
    · rw [hnone] at hheld
      cases hheld
    · have hkey : m.v x < 16 := hproper _ hheld
      rw [UInt8.lt_iff_toNat_lt] at hkey hlarge
      have h15 : (15 : UInt8).toNat = 15 := rfl
      have h16 : (16 : UInt8).toNat = 16 := rfl
      omega

/-- a jump by V0 past the end of the memory -/
def wrappedJump : Rom := ⟨"", [0x60, 0x10, 0xBF, 0xF4], by decide⟩

/-- it goes on in the font, and 16 in V0 is no key -/
theorem wrappedJump_leads :
    let m := (powerOn (.ofScript #[])).after [.load wrappedJump, .press 3, .cycle]
    m.cycle.value = .ok .plain ∧ m.Leads (.jumpOffset 0xFF4) m.cycle ∧ m.cycle.state.pc.toNat = 4 ∧
      m.keypad = some 3 ∧ m.JustPasses (.skipPressed 0) ∧ m.JustSkips (.skipNotPressed 0) := by
  intro m
  have hm : m.awaiting = none ∧ m.cycle.value = .ok .plain ∧ m.upcoming = some (.jumpOffset 0xFF4) ∧
      m.registers.get 0 = 16 ∧ m.keypad = some 3 := by decide +kernel
  obtain ⟨hx, ho, hi, hv, hk⟩ := hm
  obtain ⟨hleads, hapart, hpairs, hproper, hkeys⟩ := counter_law m
  obtain ⟨i, hi', hl⟩ := hleads hx _ ho
  obtain rfl : i = .jumpOffset 0xFF4 := Option.some.inj (hi'.symm.trans hi)
  have hlarge : 15 < m.v 0 := by
    have h0 : m.v 0 = m.registers.get 0 := (get_eq_v (m := m) (x := 0) (by decide)).symm
    rw [h0, hv]
    decide
  have hpasses := hkeys 0 (by decide) (hproper ⟨_, _, rfl⟩) (.inr hlarge)
  obtain ⟨-, -, hpair, -⟩ := hpairs 0 0 0 (by decide) (by decide)
  refine ⟨ho, hl, ?_, hk, hpasses, ?_⟩
  · rw [hl.jumpOffset _ rfl, hv]
    rfl
  · rcases hpair with ⟨hskips, -⟩ | ⟨-, hskips⟩
    · exact absurd hpasses (hapart _ hskips)
    · exact hskips

end Machine

end ChipEight
