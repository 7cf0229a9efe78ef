/-
Failing cycles. While a key is awaited no cycle fails. Otherwise one fails if no word stands at the program counter, if
the word there is none of an instruction, or if the machine refuses the instruction there, and in no other case.

Results:
- `cycle_eq_error_iff`: when a cycle fails, and with which error;
- `reached_failure`: the same for every state that a machine gets into, with what a failure leaves behind. After a
  failed fetch the machine is as before; after any other failure the fetched word and the moved counter stay, and
  neither the display nor the beeper was called.
-/
import ChipEight.Proofs.Machine.Invariant

namespace ChipEight.Machine

/-- why a cycle fails -/
inductive Fails (m : Machine) : CycleError → Prop where
  | outside (hp : 4096 ≤ m.pc.toNat) : Fails m (.word (.outside m.pc.toUInt64 4096))
  | unknown (w : Word) (hw : m.AtPc w) (hi : ∀ i : Instruction, i.Fits → i.encode ≠ w) : Fails m (.word (.unknown w))
  | refused (i : Instruction) (e : CycleError) (hw : m.AtPc i.encode) (hi : i.Fits) (he : m.Refuses i e) : Fails m e

variable {m : Machine}

/-- the awaiting register is there, so a poll goes well -/
theorem Sound.poll_ok (h : m.Sound) {x : Size} (hx : m.awaiting = some x) : ∃ op, (m.poll x).value = .ok op := by
  rcases m.poll_cases x with ⟨-, hp⟩ | ⟨key, -, hge, -⟩ | ⟨key, i, -, -, hp⟩
  · exact ⟨_, congrArg Outcome.value hp⟩
  · exact absurd (h.awaiting_lt x hx) hge
  · exact ⟨_, congrArg Outcome.value hp⟩

theorem Fails.of_course {o : Outcome Event Machine Report} {f : Failure CycleError} (h : m.Sound) (hc : Course m o)
    (hf : o.value = .error f) : ∃ e, f = .error e ∧ m.awaiting = none ∧ m.Fails e := by
  cases hc with
  | polled x hx =>
    obtain ⟨op, ho⟩ := h.poll_ok hx
    rw [ho] at hf; cases hf
  | unfetched hx hp =>
    simp only [Outcome.quiet, Except.error.injEq] at hf
    have := h.pc_even
    exact ⟨_, hf.symm, hx, .outside (by omega)⟩
  | unknown w hx hw hi =>
    simp only [Outcome.quiet, Except.error.injEq] at hf
    exact ⟨_, hf.symm, hx, .unknown w hw hi⟩
  | failed i f' hx hw hi hf' =>
    obtain ⟨e, rfl, he⟩ := (h.effect_eq_error_iff hi).1 hf'
    simp only [Except.error.injEq] at hf
    exact ⟨e, hf.symm, hx, .refused i e hw hi he⟩
  | done i e hx hw hi he => simp at hf

theorem Fails.cycle {e : CycleError} (hf : m.Fails e) (h : m.Sound) (hx : m.awaiting = none) :
    m.cycle.value = .error (.error e) := by
  cases hf with
  | outside hp => rw [cycle_of_outside hx (by omega)]; rfl
  | unknown w hw hi => rw [cycle_of_unknown hx hw hi]; rfl
  | refused i e hw hi he =>
    have he' := (h.effect_eq_error_iff (w := i.encode) hi).2 ⟨e, rfl, he⟩
    rw [cycle_of_instruction hx hw hi]
    exact execute_eq_error_iff.2 he'

theorem cycle_eq_error_iff {f : Failure CycleError} (h : m.Sound) :
    m.cycle.value = .error f ↔ ∃ e, f = .error e ∧ m.awaiting = none ∧ m.Fails e := by
  refine ⟨Fails.of_course h m.cycle_course, fun hf => ?_⟩
  obtain ⟨e, rfl, hx, he⟩ := hf
  exact he.cycle h hx

/-! ## What a failure leaves behind -/

theorem Course.failed_state {o : Outcome Event Machine Report} {f : Failure CycleError} (h : m.Sound)
    (hc : Course m o) (hf : o.value = .error f) :
    (4096 ≤ m.pc.toNat ∧ o.state = m ∧ o.events = []) ∨
      ∃ w, m.AtPc w ∧ o.state = m.fetched w ∧ ∀ ev ∈ o.events, ev.onDisplay = false ∧ ev.onBeeper = false := by
  cases hc with
  | polled x hx =>
    obtain ⟨op, ho⟩ := h.poll_ok hx
    rw [ho] at hf; cases hf
  | unfetched hx hp =>
    have := h.pc_even
    exact .inl ⟨by omega, rfl, rfl⟩
  | unknown w hx hw hi => exact .inr ⟨w, hw, rfl, by simp [Outcome.quiet]⟩
  | failed i f' hx hw hi hf' =>
    refine .inr ⟨i.encode, hw, rfl, fun ev hev => ?_⟩
    rw [List.mem_singleton.1 hev]; exact ⟨rfl, rfl⟩
  | done i e hx hw hi he => simp at hf

/-- **A cycle fails exactly in the listed cases, and before it has done anything.** In every state that a
machine gets into, a cycle reports a failure exactly if no key is awaited and the machine `Fails` for that cause. With
no word at the counter the whole machine is as before; otherwise only the fetched word and the counter are new, and
neither the display nor the beeper was called. -/
theorem reached_failure (m : Machine) (h : m.Reached) (f : Failure CycleError) :
    (m.cycle.value = .error f ↔ ∃ e, f = .error e ∧ m.awaiting = none ∧ m.Fails e) ∧
      (m.cycle.value = .error f →
        (4096 ≤ m.pc.toNat ∧ m.cycle.state = m ∧ m.cycle.events = []) ∨
        ∃ w, m.AtPc w ∧ (m.pc + 2).toNat = m.pc.toNat + 2 ∧ m.cycle.state = { m with word := w, pc := m.pc + 2 } ∧
          ∀ ev ∈ m.cycle.events, ev.onDisplay = false ∧ ev.onBeeper = false) := by
  have hs := sound_reached h
  refine ⟨cycle_eq_error_iff hs, fun hf => ?_⟩
  rcases m.cycle_course.failed_state hs hf with h0 | ⟨w, hw, hst, hev⟩
  · exact .inl h0
  · exact .inr ⟨w, hw, (hs.toNat_fetched_pc hw).1, hst, hev⟩

/-- a call of itself -/
def endlessCall : Rom := ⟨"", [0x22, 0x00], by decide⟩

/-- the seventeenth call in a row -/
theorem endlessCall_fails :
    let m := (powerOn (.ofScript #[])).after (.load endlessCall :: List.replicate 16 .cycle)
    m.Reached ∧ m.cycle.value = .error (.error (.stack .full)) := by
  intro m
  have hr : m.Reached := ⟨_, _, rfl⟩
  refine ⟨hr, (reached_failure m hr _).1.2 ⟨_, rfl, by decide +kernel, ?_⟩⟩
  have hi : (Instruction.call 0x200).Fits := show (0x200 : UInt16) < 0x1000 by decide
  refine .refused (.call 0x200) _ ⟨by decide +kernel, by decide +kernel⟩ hi ?_
  exact .callFull 0x200 (by decide) (by decide +kernel)

end ChipEight.Machine
