/-
Off the end of the memory. A cycle that fetches a word moves the program counter up by one word or two, also if it
fails or if the word is none of an instruction, unless it jumps, calls, returns or begins to wait. So a program that
does none of these runs off the end, and the way that is left bounds the words it can fetch: it may write over itself,
but a word is two bytes in any case. Behind the end every cycle fails in the same way and changes nothing, so the
failure is there until a reset or a load.

Results:
- `cycle_climbs`: one cycle that goes nowhere else;
- `perform_climbs`, `fetches_le`: every action of such a program, and how many words all of them fetch;
- `stalled_of_outside`: whatever is done behind the end, the program stands still and every cycle fails alike;
- `memory_end`: both for every machine.
-/
import ChipEight.Proofs.Machine.Counter
import ChipEight.Proofs.Machine.Standstill

namespace ChipEight

/-- the instruction may take the program elsewhere or let it wait for a key -/
def Instruction.departs (i : Instruction) : Bool := i.jumps || i.awaitsKey

namespace Machine

namespace Moment

/-- a cycle that fetches a word -/
def fetches (s : Moment) : Bool := s.action.isCycle && s.machine.awaiting.isNone && s.machine.fetch.isOk

/-- a cycle that jumps, calls, returns or begins to wait; not one that fails to -/
def departs (s : Moment) : Bool := s.runs Instruction.departs && s.machine.cycle.value.isOk

end Moment

/-- the failure of a fetch behind the end of the memory -/
def outside (m : Machine) : Report := .error (.error (.word (.outside m.pc.toUInt64 4096)))

variable {m : Machine} {a : Action} {actions : List Action}

/-! ## One action -/

/-- a cycle that does not depart fetches a word and climbs, or fails at the end of the memory -/
theorem cycle_climbs (hx : m.awaiting = none) (hd : Moment.departs ⟨m, .cycle⟩ = false) :
    m.cycle.state.awaiting = none ∧
      ((m.fetch.isOk = true ∧ m.pc.toNat + 1 < 4096 ∧
          (m.cycle.state.pc.toNat = m.pc.toNat + 2 ∨ m.cycle.state.pc.toNat = m.pc.toNat + 4)) ∨
        (m.fetch.isOk = false ∧ m.cycle = .quiet m.outside m)) := by
  have hok {w : Word} (hw : m.AtPc w) : m.fetch.isOk = true := by
    rw [fetch_eq_ok_iff.2 hw]
    rfl
  generalize ho : m.cycle = o
  have hc : Course m o := ho ▸ m.cycle_course
  cases hc with
  | polled x hx' => rw [hx] at hx'; cases hx'
  | unfetched hx hp =>
    refine ⟨hx, .inr ⟨?_, rfl⟩⟩
    rw [fetch_of_le hp]
    rfl
  | unknown w hx hw hi => exact ⟨hx, .inl ⟨hok hw, hw.1, .inl hw.toNat_pc⟩⟩
  | failed i f hx hw hi hf => exact ⟨hx, .inl ⟨hok hw, hw.1, .inl hw.toNat_pc⟩⟩
  | done i e hx hw hi he =>
    have hup : m.upcoming = some i := upcoming_eq_some_iff.2 ⟨hx, hi, hw⟩
    obtain ⟨hjumps, hwaits⟩ : i.jumps = false ∧ i.awaitsKey = false := by
      simpa [Moment.departs, Moment.runs, Instruction.departs, Action.isCycle, hup, ho, Except.isOk, Except.toBool]
        using hd
    have hl : m.Leads i _ := ho ▸ leads_of_effect hup he
    refine ⟨?_, .inl ⟨hok hw, hw.1, ?_⟩⟩
    · rcases effect_awaiting he with ha | ⟨x, rfl, -⟩
      · exact ha.trans hx
      · cases hwaits
    · by_cases hs : m.Skips i
      · exact .inr (hl.skip hs)
      · exact .inl (hl.next hjumps hs)

/-- Any other action than a cycle leaves the counter and the wait alone. -/
theorem perform_climbs (hx : m.awaiting = none) (ha : a.continues = true) (hd : Moment.departs ⟨m, a⟩ = false) :
    (m.perform a).state.awaiting = none ∧
      ((Moment.fetches ⟨m, a⟩ = true ∧ m.pc.toNat + 1 < 4096 ∧
          ((m.perform a).state.pc.toNat = m.pc.toNat + 2 ∨ (m.perform a).state.pc.toNat = m.pc.toNat + 4)) ∨
        (Moment.fetches ⟨m, a⟩ = false ∧ (m.perform a).state.pc = m.pc ∧
          (a = .cycle → m.cycle = .quiet m.outside m))) := by
  by_cases hc : a = .cycle
  · subst hc
    obtain ⟨hn, hclimb⟩ := cycle_climbs hx hd
    have hf : Moment.fetches ⟨m, .cycle⟩ = m.fetch.isOk := by simp [Moment.fetches, Action.isCycle, hx]
    rw [hf]
    refine ⟨hn, ?_⟩
    rcases hclimb with hup | ⟨hfail, ho⟩
    · exact .inl hup
    · have hpc : m.cycle.state.pc = m.pc := by
        rw [ho]
        rfl
      exact .inr ⟨hfail, hpc, fun _ => ho⟩
  · have hs : m.Stalled (m.perform a).state := stalled_perform ha fun h => absurd h hc
    have hf : Moment.fetches ⟨m, a⟩ = false := by
      have hn : a.isCycle = false := Bool.eq_false_iff.2 fun h => hc (Action.isCycle_iff.1 h)
      simp [Moment.fetches, hn]
    exact ⟨hs.awaiting.trans hx, .inr ⟨hf, hs.pc, fun h => absurd h hc⟩⟩

/-! ## Runs up to the end -/

theorem fetches_le (hx : m.awaiting = none) (hc : ∀ a ∈ actions, a.continues = true)
    (hd : ∀ s ∈ m.trace actions, s.departs = false) :
    (m.trace actions).countP Moment.fetches ≤ (4096 - m.pc.toNat) / 2 := by
  induction actions generalizing m with
  | nil => exact Nat.zero_le _
  | cons a rest ih =>
    obtain ⟨hn, hclimb⟩ := perform_climbs hx (hc a List.mem_cons_self) (hd ⟨m, a⟩ List.mem_cons_self)
    have hrest := ih hn (fun b hb => hc b (List.mem_cons_of_mem a hb)) fun s hs => hd s (List.mem_cons_of_mem _ hs)
    rw [trace, List.countP_cons]
    rcases hclimb with ⟨hf, hlt, hpc⟩ | ⟨hf, hpc, -⟩
    · rw [if_pos hf]
      omega
    · rw [if_neg (by rw [hf]; exact Bool.false_ne_true), ← hpc]
      exact hrest

/-- no key is awaited at any of its moments -/
theorem awaiting_of_trace (hx : m.awaiting = none) (hc : ∀ a ∈ actions, a.continues = true)
    (hd : ∀ s ∈ m.trace actions, s.departs = false) : ∀ s ∈ m.trace actions, s.machine.awaiting = none :=
  (trace_keeps (P := fun m => m.awaiting = none) hx fun s hs hx =>
    (perform_climbs hx (hc s.action (action_mem_of_trace hs)) (hd s hs)).1).1

/-- more cycles than words that can be fetched -/
theorem exists_outside (hx : m.awaiting = none) (hc : ∀ a ∈ actions, a.continues = true)
    (hd : ∀ s ∈ m.trace actions, s.departs = false)
    (hmany : (4096 - m.pc.toNat) / 2 < actions.countP Action.isCycle) :
    ∃ s ∈ m.trace actions, s.action = .cycle ∧ s.machine.cycle = .quiet s.machine.outside s.machine := by
  have hcycles : actions.countP Action.isCycle = (m.trace actions).countP fun s => s.action.isCycle := by
    conv_lhs => rw [← m.map_action_trace actions, List.countP_map]
    rfl
  obtain ⟨s, hs, hcycle, hfetch⟩ : ∃ s ∈ m.trace actions, s.action.isCycle = true ∧ s.fetches = false := by
    by_contra hall
    push Not at hall
    have hle := List.countP_mono_left fun s hs h => Bool.eq_true_of_not_eq_false (hall s hs h)
    have := fetches_le hx hc hd
    omega
  have ha := Action.isCycle_iff.1 hcycle
  obtain ⟨-, hclimb⟩ :=
    perform_climbs (awaiting_of_trace hx hc hd s hs) (hc s.action (action_mem_of_trace hs)) (hd s hs)
  rcases hclimb with ⟨hf, -⟩ | ⟨-, -, ho⟩
  · exact absurd (hf.symm.trans hfetch) (by decide)
  · exact ⟨s, hs, ha, ho ha⟩

/-! ## Behind the end -/

/-- no instruction reports a failed fetch -/
theorem effect_ne_word {i : Instruction} {c : WordError} : m.effect i ≠ .error (.error (.word c)) := by
  intro h
  cases i <;> simp only [effect, bind_eq_error] at h <;> grind [Registers.lookup, target, window]

/-- a cycle reports a failed fetch only if that is what it came to -/
theorem cycle_of_value_outside {pointer : Size} {size : Nat}
    (h : m.cycle.value = .error (.error (.word (.outside pointer size)))) :
    m.awaiting = none ∧ 4096 ≤ m.pc.toNat + 1 ∧ m.outside = .error (.error (.word (.outside pointer size))) := by
  generalize ho : m.cycle = o at h
  have hc : Course m o := ho ▸ m.cycle_course
  cases hc with
  | polled x hx =>
    rcases m.poll_cases x with ⟨-, hp⟩ | ⟨key, -, -, hp⟩ | ⟨key, i, -, -, hp⟩ <;>
      (rw [hp] at h; cases h)
  | unfetched hx hp => exact ⟨hx, hp, h⟩
  | unknown w hx hw hi => cases h
  | failed i f hx hw hi hf =>
    cases h
    exact absurd hf effect_ne_word
  | done i e hx hw hi he => cases h

/-- whatever is done then, the program stands still, and every cycle fails like the first -/
theorem stalled_of_outside (hx : m.awaiting = none) (hp : 4096 ≤ m.pc.toNat + 1)
    (hc : ∀ a ∈ actions, a.continues = true) :
    (∀ s ∈ m.trace actions, m.Stalled s.machine ∧ s.machine.cycle = .quiet m.outside s.machine) ∧
      m.Stalled (m.after actions) := by
  have hfails {n : Machine} (hn : m.Stalled n) : n.cycle = .quiet m.outside n := by
    rw [outside, ← hn.pc]
    exact cycle_of_outside (hn.awaiting.trans hx) (by rw [hn.pc]; exact hp)
  obtain ⟨hs, hn⟩ := stalled_trace (.refl m) hc fun s _ _ hm => congrArg Outcome.state (hfails hm)
  exact ⟨fun s hm => ⟨hs s hm, hfails (hs s hm)⟩, hn⟩

/-- **A program runs off the end, and the end is final.** Let no key be awaited, and let a run have no cycle that jumps,
calls, returns or begins to wait. Then its cycles fetch at most as many words as there are between the counter and the
end of the memory, whatever they hold by then; each cycle that fetches one moves the counter up by two or four; and a
run with more cycles has one that fails at the end of the memory.

Once a cycle has failed there, whatever is done up to a reset or a load, every cycle comes to the same failure and
changes nothing, and the program stands still. -/
theorem memory_end (m : Machine) :
    (m.awaiting = none →
      ∀ actions, (∀ a ∈ actions, a.continues = true) → (∀ s ∈ m.trace actions, s.departs = false) →
        (m.trace actions).countP Moment.fetches ≤ (4096 - m.pc.toNat) / 2 ∧
        (∀ s ∈ m.trace actions, s.fetches = true →
          s.machine.cycle.state.pc.toNat = s.machine.pc.toNat + 2 ∨
          s.machine.cycle.state.pc.toNat = s.machine.pc.toNat + 4) ∧
        ((4096 - m.pc.toNat) / 2 < actions.countP Action.isCycle →
          ∃ s ∈ m.trace actions, s.action = .cycle ∧
            s.machine.cycle.value = .error (.error (.word (.outside s.machine.pc.toUInt64 4096))))) ∧
    ∀ pointer size, m.cycle.value = .error (.error (.word (.outside pointer size))) →
      ∀ actions, (∀ a ∈ actions, a.continues = true) →
        (∀ s ∈ m.cycle.state.trace actions,
          m.Stalled s.machine ∧
          s.machine.cycle = .quiet (.error (.error (.word (.outside pointer size)))) s.machine) ∧
        m.Stalled (m.cycle.state.after actions) := by
  refine ⟨fun hx actions hc hd => ⟨fetches_le hx hc hd, fun s hs hf => ?_, fun hmany => ?_⟩, ?_⟩
  · obtain ⟨-, hclimb⟩ :=
      perform_climbs (awaiting_of_trace hx hc hd s hs) (hc s.action (action_mem_of_trace hs)) (hd s hs)
    rcases hclimb with ⟨-, -, hpc⟩ | ⟨hf', -⟩
    · obtain ⟨n, a⟩ := s
      have ha : a = .cycle := by
        cases a with
        | cycle => rfl
        | _ => cases hf
      subst ha
      exact hpc
    · exact absurd (hf.symm.trans hf') (by decide)
  · obtain ⟨s, hs, ha, ho⟩ := exists_outside hx hc hd hmany
    exact ⟨s, hs, ha, congrArg Outcome.value ho⟩
  · intro pointer size hvalue actions hc
    obtain ⟨hx, hp, hsame⟩ := cycle_of_value_outside hvalue
    have hstate : m.cycle.state = m := by rw [cycle_of_outside hx hp]; rfl
    rw [hstate, ← hsame]
    exact stalled_of_outside hx hp hc

/-- V0 becomes `40`, which is stored as the first byte of the last word, and the word before that is run -/
def climbingOut : Rom := ⟨"", [0x60, 0x40, 0xAF, 0xFE, 0xF0, 0x55, 0x1F, 0xFC], by decide⟩

/-- the last word skips, so that the third cycle fails at 4098, and so does every later one -/
theorem climbingOut_ends :
    let m := (powerOn (.ofScript #[])).after [.load climbingOut, .cycle, .cycle, .cycle, .cycle]
    let actions : List Action := [.cycle, .tick, .cycle, .press 5, .cycle]
    let n := m.after actions
    (m.pc = 0xFFC ∧ ∀ s ∈ m.trace actions, s.departs = false) ∧
      (m.trace actions).countP Moment.fetches ≤ 2 ∧
      (∃ s ∈ m.trace actions, s.action = .cycle ∧
        s.machine.cycle.value = .error (.error (.word (.outside s.machine.pc.toUInt64 4096)))) ∧
      n.cycle.value = .error (.error (.word (.outside 4098 4096))) ∧
      n.Stalled (n.cycle.state.after [.release 5, .cycle, .tick]) := by
  intro m actions n
  have hm : m.awaiting = none ∧ m.pc = 0xFFC ∧ (∀ s ∈ m.trace actions, s.departs = false) ∧
      n.cycle.value = .error (.error (.word (.outside 4098 4096))) := by decide +kernel
  obtain ⟨hx, hpc, hd, hvalue⟩ := hm
  obtain ⟨hrun, -⟩ := memory_end m
  obtain ⟨-, hend⟩ := memory_end n
  obtain ⟨hfetches, -, hfails⟩ := hrun hx actions (by decide) hd
  have hleft : (4096 - m.pc.toNat) / 2 = 2 := by rw [hpc]; rfl
  rw [hleft] at hfetches hfails
  obtain ⟨-, hstalled⟩ := hend _ _ hvalue [.release 5, .cycle, .tick] (by decide)
  exact ⟨⟨hpc, hd⟩, hfetches, hfails (by decide), hvalue, hstalled⟩

end Machine

end ChipEight
