/-
The wait for a key. `FX0A` only says where the next key goes to. From then on every cycle polls the keypad once, and
nothing else moves the program: a poll that finds no key changes nothing, the first one that finds a key stores it and
ends the wait. What else a host does meanwhile changes the countdowns, the tone, the keypad and the stream at most,
and of the keypad only the moments of the polls count.

Results:
- `cycle_unanswered`, `cycle_answered`: the two ways a poll can go;
- `unanswered_or_first`: a history has no poll that finds a key, or a first one;
- `stalled_of_unanswered`: while no poll finds a key the program stands still;
- `key_wait`: a wait from its `FX0A` on, up to its key, or to a reset or load, and across a stop and a start.
-/
import ChipEight.Proofs.Console.Lifecycle
import ChipEight.Proofs.Console.Reached
import ChipEight.Proofs.Machine.Standstill

namespace ChipEight.Machine

/-- no cycle of the run finds a key -/
def Unanswered (m : Machine) (actions : List Action) : Prop :=
  ∀ s ∈ m.trace actions, s.action.isCycle = true → s.machine.keypad = none

instance (m : Machine) (actions : List Action) : Decidable (m.Unanswered actions) :=
  inferInstanceAs (Decidable (∀ s ∈ m.trace actions, s.action.isCycle = true → s.machine.keypad = none))

/-- what can go on while only this one key is pressed: no cycle, no other key, no reset or load -/
def Action.pressesOnly (key : UInt8) : Action → Bool
  | .cycle | .reset | .load _ => false
  | .press k => k == key
  | _ => true

variable {m : Machine} {x : Size} {actions : List Action}

/-! ## The cycles of a wait -/

theorem cycle_awaitKey (h : m.upcoming = some (.awaitKey x)) :
    m.cycle =
      ⟨.ok .wait, { m with word := (Instruction.awaitKey x).encode, pc := m.pc + 2, awaiting := some x },
        [.log (.decoded (Instruction.awaitKey x).encode (.awaitKey x)), .log (.keyAwaited x)]⟩ :=
  cycle_of_effect h rfl

theorem cycle_unanswered (hx : m.awaiting = some x) (hk : m.keypad = none) :
    m.cycle = .quiet (.ok .wait) m := by
  simp only [cycle, hx, poll_of_released hk]

theorem cycle_answered {key : UInt8} {i : Fin 16} (hx : m.awaiting = some x) (hi : Registers.lookup x = .ok i)
    (hk : m.keypad = some key) :
    m.cycle =
      ⟨.ok .plain, { m with registers := m.registers.put i key, awaiting := none }, [.log (.keyTaken key x)]⟩ := by
  simp only [cycle, hx, poll_of_pressed hk hi]

/-- without a wait the word at the program counter is run -/
theorem cycle_of_atPc {w : Word} (hx : m.awaiting = none) (hw : m.AtPc w) : m.cycle = (m.fetched w).runWord w := by
  simp only [cycle, hx, fetch_eq_ok_iff.2 hw]

/-! ## Histories without an answer -/

theorem unanswered_append (as bs : List Action) :
    m.Unanswered (as ++ bs) ↔ m.Unanswered as ∧ (m.after as).Unanswered bs := by
  unfold Unanswered
  rw [trace_append]
  simp only [List.mem_append, or_imp, forall_and]

theorem unanswered_cons (a : Action) (rest : List Action) :
    m.Unanswered (a :: rest) ↔ (a = .cycle → m.keypad = none) ∧ (m.perform a).state.Unanswered rest := by
  unfold Unanswered
  rw [trace]
  simp only [List.forall_mem_cons, Action.isCycle_iff]

theorem unanswered_or_first (m : Machine) (actions : List Action) :
    m.Unanswered actions ∨
      ∃ before later key, actions = before ++ .cycle :: later ∧ m.Unanswered before ∧
        (m.after before).keypad = some key := by
  induction actions generalizing m with
  | nil => exact .inl fun s hs => (by cases hs)
  | cons a rest ih =>
    by_cases ha : a = .cycle → m.keypad = none
    · rcases ih (m.perform a).state with hu | ⟨before, later, key, rfl, hu, hk⟩
      · exact .inl ((unanswered_cons a rest).2 ⟨ha, hu⟩)
      · exact .inr ⟨a :: before, later, key, rfl, (unanswered_cons a before).2 ⟨ha, hu⟩, hk⟩
    · obtain ⟨rfl, hk⟩ := Classical.not_imp.1 ha
      obtain ⟨key, hk⟩ := Option.ne_none_iff_exists'.1 hk
      exact .inr ⟨[], rest, key, rfl, fun s hs => (by cases hs), hk⟩

/-! ## A wait without an answer -/

theorem stalled_of_unanswered (hx : m.awaiting = some x) (hc : ∀ a ∈ actions, a.continues = true)
    (hu : m.Unanswered actions) :
    (∀ s ∈ m.trace actions, m.Stalled s.machine) ∧ m.Stalled (m.after actions) := by
  refine stalled_trace (.refl m) hc fun s hs ha hm => ?_
  have hx : s.machine.awaiting = some x := hm.awaiting.trans hx
  rw [cycle_unanswered hx (hu s hs (Action.isCycle_iff.2 ha))]
  rfl

/-! ## Keys that come and go -/

theorem keypad_of_pressesOnly {key : UInt8} (hp : ∀ a ∈ actions, a.pressesOnly key = true)
    (hk : m.keypad = none ∨ m.keypad = some key) :
    (m.after actions).keypad = none ∨ (m.after actions).keypad = some key := by
  induction actions generalizing m with
  | nil => exact hk
  | cons a rest ih =>
    refine ih (fun b hb => hp b (List.mem_cons_of_mem a hb)) ?_
    have ha := hp a List.mem_cons_self
    cases a with
    | cycle | reset | load _ => cases ha
    | tick =>
      rw [perform_tick_state]
      exact hk
    | silence =>
      rw [perform_silence_state]
      exact hk
    | press k =>
      obtain rfl : k = key := eq_of_beq ha
      rw [perform_press_state]
      by_cases hlt : k < 16
      · rw [if_pos hlt]; exact .inr rfl
      · rw [if_neg hlt]; exact hk
    | release k =>
      simp only [perform, release, Keypad.release, Outcome.quiet]
      split_ifs with hr
      · exact .inl rfl
      · exact hk
    | clearKeys => exact .inl rfl
    | setRandom _ => exact hk

/-- a key that went down and up again is not held, whichever was held before -/
theorem keypad_released {key : UInt8} (hlt : key < 16) {pause : List Action}
    (hp : ∀ a ∈ pause, a.pressesOnly key = true) {last : Action} (hl : last = .release key ∨ last = .clearKeys) :
    (m.after (.press key :: (pause ++ [last]))).keypad = none := by
  have hpress : (m.perform (.press key)).state.keypad = some key := by
    rw [perform_press_state, if_pos hlt]
  have hk := keypad_of_pressesOnly hp (.inr hpress)
  rw [after_cons, after_append]
  rcases hl with rfl | rfl
  · show Keypad.release _ key = none
    rcases hk with hk | hk <;> simp [Keypad.release, hk]
  · rfl

theorem unanswered_of_no_cycle (hc : ∀ a ∈ actions, a.isCycle = false) : m.Unanswered actions := by
  intro s hs ha
  rw [hc s.action (action_mem_of_trace hs)] at ha
  cases ha

/-- and so the poll behind finds no key -/
theorem unanswered_released {key : UInt8} (hlt : key < 16) {pause : List Action}
    (hp : ∀ a ∈ pause, a.pressesOnly key = true) {last : Action} (hl : last = .release key ∨ last = .clearKeys) :
    m.Unanswered (.press key :: (pause ++ [last, .cycle])) := by
  have hsplit : Action.press key :: (pause ++ [last, .cycle]) = .press key :: (pause ++ [last]) ++ [.cycle] := by simp
  rw [hsplit, unanswered_append]
  refine ⟨unanswered_of_no_cycle ?_, (unanswered_cons _ _).2 ⟨fun _ => keypad_released hlt hp hl, ?_⟩⟩
  swap
  · intro s hs
    cases hs
  intro a ha
  rcases List.mem_cons.1 ha with rfl | ha
  · rfl
  rcases List.mem_append.1 ha with ha | ha
  · have hpa := hp a ha
    cases a with
    | cycle => cases hpa
    | _ => rfl
  · rw [List.mem_singleton.1 ha]
    rcases hl with rfl | rfl <;> rfl

/-! ## Ends of a wait -/

/-- a reset and a load end a wait, and every register is zero then -/
theorem perform_of_not_continues {a : Action} (ha : a.continues = false) :
    (m.perform a).state.awaiting = none ∧ ∀ i, (m.perform a).state.registers.get i = 0 := by
  have hz : ∀ i, Registers.get (Vector.replicate 16 0) i = 0 := by decide
  cases a with
  | reset =>
    rw [perform_reset_state]
    exact ⟨rfl, hz⟩
  | load rom =>
    rw [perform_load_state]
    exact ⟨rfl, hz⟩
  | cycle | tick | silence | press _ | release _ | clearKeys | setRandom _ => cases ha

/-- **A wait for a key.** Let a cycle run `FX0A`. It says that it waits and changes nothing but the word, the program
counter and the register that the next key goes to. Whatever is done then, either no poll finds a key or one is the
first to.

After any actions other than resets and loads, of which no poll found a key:

- Every cycle up to then said that it waits and changed nothing at all, and the program stands still.
- A poll that finds a key now puts it into VX and ends the wait, nothing else. The next cycle then fetches right behind
  the `FX0A`, from the memory as it was, whatever is done before it.
- A key that goes down and up again before the next poll is not found.
- A reset or a load now ends the wait; no register was written up to it, and VX is zero behind it.
- A stop of a console and a start go on with this wait, as a silence would. -/
theorem key_wait {m : Machine} {x : Size} (h : m.upcoming = some (.awaitKey x)) :
    let i : Fin 16 := .ofNat 16 x.toNat
    let n := m.cycle.state
    (i.val = x.toNat ∧ (m.pc + 2).toNat = m.pc.toNat + 2 ∧ m.cycle.value = .ok .wait ∧
      n = { m with word := (Instruction.awaitKey x).encode, pc := m.pc + 2, awaiting := some x }) ∧
    (∀ actions, n.Unanswered actions ∨
      ∃ before later key, actions = before ++ .cycle :: later ∧ n.Unanswered before ∧
        (n.after before).keypad = some key) ∧
    ∀ before, (∀ a ∈ before, a.continues = true) → n.Unanswered before →
      let w := n.after before
      ((∀ s ∈ n.trace before, n.Stalled s.machine ∧
          (s.action.isCycle = true → s.machine.cycle = .quiet (.ok .wait) s.machine)) ∧
        n.Stalled w) ∧
      (∀ key, w.keypad = some key →
        w.cycle = ⟨.ok .plain, { w with registers := w.registers.put i key, awaiting := none },
          [.log (.keyTaken key x)]⟩ ∧
        ∀ pause, (∀ a ∈ pause, a.continues = true ∧ a.isCycle = false) →
          let p := w.cycle.state.after pause
          w.cycle.state.Stalled p ∧ p.pc = m.pc + 2 ∧ p.memory = m.memory ∧
            (∀ v, p.AtPc v → p.cycle = (p.fetched v).runWord v) ∧
            (4096 ≤ p.pc.toNat + 1 → p.cycle = .quiet (.error (.error (.word (.outside p.pc.toUInt64 4096)))) p)) ∧
      (∀ key < 16, ∀ pause, (∀ a ∈ pause, a.pressesOnly key = true) →
        ∀ last, last = .release key ∨ last = .clearKeys →
          n.Unanswered (before ++ .press key :: (pause ++ [last, .cycle]))) ∧
      (∀ a, a.continues = false →
        w.registers = m.registers ∧ (w.perform a).state.awaiting = none ∧ (w.perform a).state.registers.get i = 0) ∧
      ∀ c : Console, c.machine = w →
        let d := c.after [.stop, .start]
        d.running = true ∧ d.machine = n.after (before ++ [.silence]) ∧ n.Unanswered (before ++ [.silence]) ∧
          d.machine.awaiting = some x ∧ d.machine.registers = m.registers := by
  intro i n
  obtain ⟨-, hfit, -⟩ := upcoming_eq_some_iff.1 h
  have hlt : x < 16 := hfit
  have hi : i.val = x.toNat := Nat.mod_eq_of_lt hlt
  have hn : n = { m with word := (Instruction.awaitKey x).encode, pc := m.pc + 2, awaiting := some x } :=
    congrArg Outcome.state (cycle_awaitKey h)
  have hx : n.awaiting = some x := by rw [hn]
  refine ⟨⟨hi, toNat_pc_of_upcoming h, congrArg Outcome.value (cycle_awaitKey h), hn⟩,
    n.unanswered_or_first, ?_⟩
  intro before hc hu w
  obtain ⟨htrace, hw⟩ : (∀ s ∈ n.trace before, n.Stalled s.machine) ∧ n.Stalled w := stalled_of_unanswered hx hc hu
  have hwx : w.awaiting = some x := hw.awaiting.trans hx
  have hwr : w.registers = m.registers := hw.registers.trans (by rw [hn])
  refine ⟨⟨?_, hw⟩, ?_, ?_, ?_, ?_⟩
  · intro s hs
    have hsx : s.machine.awaiting = some x := (htrace s hs).awaiting.trans hx
    exact ⟨htrace s hs, fun ha => cycle_unanswered hsx (hu s hs ha)⟩
  · intro key hk
    have ho : w.cycle = ⟨.ok .plain, { w with registers := w.registers.put i key, awaiting := none },
        [.log (.keyTaken key x)]⟩ :=
      cycle_answered hwx (lookup_of_fits hlt) hk
    refine ⟨ho, ?_⟩
    intro pause hp p
    have hs : w.cycle.state.Stalled p := stalled_of_no_cycle hp
    have hpx : p.awaiting = none := hs.awaiting.trans (by rw [ho])
    have hpc : p.pc = m.pc + 2 :=
      calc p.pc = w.pc := hs.pc.trans (by rw [ho])
        _ = n.pc := hw.pc
        _ = m.pc + 2 := by rw [hn]
    have hmem : p.memory = m.memory :=
      calc p.memory = w.memory := hs.memory.trans (by rw [ho])
        _ = n.memory := hw.memory
        _ = m.memory := by rw [hn]
    exact ⟨hs, hpc, hmem, fun v => cycle_of_atPc hpx, cycle_of_outside hpx⟩
  · intro key hlt pause hp last hl
    exact (unanswered_append _ _).2 ⟨hu, unanswered_released hlt hp hl⟩
  · intro a ha
    obtain ⟨hnone, hzero⟩ := perform_of_not_continues (m := w) ha
    exact ⟨hwr, hnone, hzero i⟩
  · intro c hcw d
    have hd : d = c.stopped.started := c.after_stop_start
    have hm : d.machine = n.after (before ++ [.silence]) := by
      rw [hd, after_append]
      show { c.machine with beeping := false } = w.silence.state
      rw [silence_state, hcw]
    have hsilence : n.Unanswered (before ++ [.silence]) :=
      (unanswered_append _ _).2 ⟨hu, unanswered_of_no_cycle fun a ha => by rw [List.mem_singleton.1 ha]; rfl⟩
    have hs : n.Stalled d.machine := by
      rw [hm, after_append]
      exact hw.trans (stalled_perform rfl nofun)
    exact ⟨by rw [hd]; rfl, hm, hsilence, hs.awaiting.trans hx, hs.registers.trans (by rw [hn])⟩

/-- a key goes to V3, and the program stays where it is -/
def keyToV3 : Rom := ⟨"", [0xF3, 0x0A, 0x12, 0x02], by decide⟩

/-- 7 is not seen, it is up again before the poll; 9 is, and goes to V3 -/
theorem keyToV3_takes_nine :
    let m := (powerOn (.ofScript #[])).after [.load keyToV3]
    let before : List Action := [.cycle, .tick, .press 7, .silence, .release 7, .cycle, .press 9]
    let w := m.cycle.state.after before
    m.upcoming = some (.awaitKey 3) ∧ m.cycle.state.Unanswered before ∧ w.keypad = some 9 ∧
      w.registers = m.registers ∧ w.cycle.value = .ok .plain ∧ w.cycle.state.registers.get 3 = 9 ∧
      w.cycle.state.pc = m.pc + 2 := by
  intro m before w
  have hrun : m.upcoming = some (.awaitKey 3) ∧ m.cycle.state.Unanswered before ∧ w.keypad = some 9 := by
    decide +kernel
  obtain ⟨h, hu, hk⟩ := hrun
  obtain ⟨⟨-, -, -, hn⟩, -, hwait⟩ := key_wait h
  obtain ⟨⟨-, hw⟩, htaken, -⟩ := hwait before (by decide) hu
  obtain ⟨ho, hnext⟩ := htaken 9 hk
  obtain ⟨-, hpc, -⟩ := hnext [] (by simp)
  -- which run it was is settled by now
  clear_value m
  refine ⟨h, hu, hk, hw.registers.trans (by rw [hn]), ?_, ?_, hpc⟩
  · exact congrArg Outcome.value ho
  · exact (congrArg (·.state.registers.get 3) ho).trans (Registers.get_put ..)

end ChipEight.Machine
