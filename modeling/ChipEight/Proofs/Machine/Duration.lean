/-
How long a countdown runs and how long a tone is on. Only ticks count down and only `FX15` and `FX18` set a countdown
anew, so between two of these a countdown has lost as many as there were ticks, whatever else the program does or fails
to do. The tone is what the last tick found, so it is one tick behind: a countdown of `n` gives a tone from the first
tick to the one after the `n`-th.

Results:
- `Counts.after`: a countdown that is not set has gone down by the number of ticks;
- `tone_after`: whether the tone is on after some ticks, and the calls of the beeper up to then;
- `beeps_eq_nil_iff`: a tone goes on without a call exactly as long as no tick finds its countdown at zero;
- `tone_length`: all of it for every run without a silence, reset or load.
-/
import ChipEight.Proofs.Machine.Tone

namespace ChipEight

theorem Countdown.active_iff (c : Countdown) : c.active = true ↔ c.value ≠ 0 := by
  unfold active
  rw [decide_eq_true_iff]
  exact UInt8.pos_iff_ne_zero

theorem Countdown.active_eq (c : Countdown) : c.active = decide (0 < c.value.toNat) := by
  unfold active
  exact decide_eq_decide.2 UInt8.lt_iff_toNat_lt

namespace Machine

/-- whether the countdowns and the tone are left to the ticks and the program -/
def Action.keepsTime : Action → Bool
  | .silence | .reset | .load _ => false
  | _ => true

/-- how many ticks there are -/
def ticks (actions : List Action) : Nat := actions.countP Action.isTick

theorem ticks_cons (a : Action) (rest : List Action) : ticks (a :: rest) = ticks [a] + ticks rest := by
  rw [ticks, ticks, ticks, ← List.countP_append]
  rfl

variable {m : Machine} {a : Action} {actions : List Action}

/-! ## Countdowns -/

/-- one of the countdowns: ticks count it down, and of the instructions only this kind sets it -/
structure Counts (c : Machine → Countdown) (kind : Instruction → Bool) : Prop where
  tick : ∀ m : Machine, c m.tick.state = (c m).tick
  cycle : ∀ m : Machine, m.upcoming.any kind = false → c m.cycle.state = c m
  host : ∀ (m : Machine) keypad random, c { m with keypad, random } = c m

theorem counts_sound : Counts sound Instruction.setsSound where
  tick m := by rw [tick_state]
  cycle _ := cycle_sound
  host _ _ _ := rfl

theorem counts_delay : Counts delay Instruction.setsDelay where
  tick m := by rw [tick_state]
  cycle _ := cycle_delay
  host _ _ _ := rfl

section

variable {c : Machine → Countdown} {kind : Instruction → Bool}

theorem Counts.perform (h : Counts c kind) (ha : a.keepsTime = true) (hs : Moment.runs ⟨m, a⟩ kind = false) :
    (c (m.perform a).state).value.toNat = (c m).value.toNat - ticks [a] := by
  cases a with
  | cycle => exact congrArg (·.value.toNat) (h.cycle m hs)
  | tick => exact (congrArg (·.value.toNat) (h.tick m)).trans (Countdown.value_tick _)
  | press key =>
    simp only [Machine.perform, press]
    cases Keypad.press key with
    | ok keypad => exact congrArg (·.value.toNat) (h.host m keypad m.random)
    | error e => rfl
  | release key => exact congrArg (·.value.toNat) (h.host m (m.keypad.release key) m.random)
  | clearKeys => exact congrArg (·.value.toNat) (h.host m .released m.random)
  | setRandom random => exact congrArg (·.value.toNat) (h.host m m.keypad random)
  | silence | reset | load _ => cases ha

theorem Counts.after (h : Counts c kind) (ha : ∀ a ∈ actions, a.keepsTime = true)
    (hs : ∀ s ∈ m.trace actions, s.runs kind = false) :
    (c (m.after actions)).value.toNat = (c m).value.toNat - ticks actions := by
  induction actions generalizing m with
  | nil => rfl
  | cons a rest ih =>
    have hfirst := h.perform (ha a List.mem_cons_self) (hs ⟨m, a⟩ List.mem_cons_self)
    have hrest := ih (m := (m.perform a).state) (fun b hb => ha b (List.mem_cons_of_mem a hb))
      fun s hm => hs s (List.mem_cons_of_mem _ hm)
    calc (c (m.after (a :: rest))).value.toNat
        = (c (m.perform a).state).value.toNat - ticks rest := hrest
      _ = (c m).value.toNat - ticks [a] - ticks rest := by rw [hfirst]
      _ = (c m).value.toNat - ticks (a :: rest) := by rw [Nat.sub_sub, ← ticks_cons]

end

/-! ## The tone -/

theorem beeping_perform (ha : a.keepsTime = true) :
    (m.perform a).state.beeping = if a.isTick then m.sound.active else m.beeping := by
  cases a with
  | cycle => exact m.cycle_beeping
  | tick =>
    rw [perform_tick_state]
    rfl
  | press key =>
    rw [perform_press_state]
    rfl
  | release _ | clearKeys | setRandom _ => rfl
  | silence | reset | load _ => cases ha

/-- the state of the tone after a number of ticks, from a countdown of `n` -/
def toneAfter (on : Bool) (n k : Nat) : Bool := if k = 0 then on else decide (k ≤ n)

/-- the calls of the beeper in a number of ticks, from a countdown of `n` -/
def callsAfter (on : Bool) (n k : Nat) : List Event :=
  (if on = false ∧ 0 < n ∧ 0 < k then [.startBeep] else []) ++ if (on = true ∨ 0 < n) ∧ n < k then [.stopBeep] else []

theorem toneAfter_succ (on : Bool) (n k : Nat) : toneAfter on n (k + 1) = toneAfter (decide (0 < n)) (n - 1) k := by
  unfold toneAfter
  rw [if_neg (Nat.succ_ne_zero k)]
  split_ifs with hk
  · subst hk; rfl
  · exact decide_eq_decide.2 (by omega)

theorem callsAfter_succ (on : Bool) (n k : Nat) :
    callsAfter on n (k + 1) = toneCall on (decide (0 < n)) ++ callsAfter (decide (0 < n)) (n - 1) k := by
  unfold callsAfter
  cases n with
  | zero => cases on <;> simp [toneCall]
  | succ n => cases on <;> simp [toneCall]

theorem callsAfter_zero (on : Bool) (n : Nat) : callsAfter on n 0 = [] := by simp [callsAfter]

/-- the calls of the tick behind, which goes on from what is left -/
theorem toneCall_toneAfter (n k : Nat) :
    toneCall (toneAfter false n k) (decide (0 < n - k)) =
      if 0 < n ∧ k + 1 = 1 then [.startBeep] else if 0 < n ∧ k + 1 = n + 1 then [.stopBeep] else [] := by
  cases k with
  | zero =>
    by_cases hn : 0 < n <;> simp [toneAfter, toneCall, hn]
  | succ k =>
    have hzero : ¬ (0 < n ∧ k + 1 + 1 = 1) := by omega
    rw [toneAfter, if_neg (Nat.succ_ne_zero k), if_neg hzero]
    rcases lt_trichotomy (k + 1) n with hk | rfl | hk
    · have hle : k + 1 ≤ n := hk.le
      have hleft : 0 < n - (k + 1) := Nat.sub_pos_of_lt hk
      have hne : ¬ (0 < n ∧ k + 1 + 1 = n + 1) := by omega
      rw [if_neg hne, decide_eq_true hle, decide_eq_true hleft]
      rfl
    · simp [toneCall]
    · have hle : ¬ k + 1 ≤ n := by omega
      have hleft : ¬ 0 < n - (k + 1) := by omega
      have hne : ¬ (0 < n ∧ k + 1 + 1 = n + 1) := by omega
      rw [if_neg hne, decide_eq_false hle, decide_eq_false hleft]
      rfl

/-- what a countdown of the sound makes of the tone while no instruction sets it -/
theorem tone_after (ha : ∀ a ∈ actions, a.keepsTime = true)
    (hs : ∀ s ∈ m.trace actions, s.runs Instruction.setsSound = false) :
    (m.after actions).beeping = toneAfter m.beeping m.sound.value.toNat (ticks actions) ∧
      beeps (m.run actions).events = callsAfter m.beeping m.sound.value.toNat (ticks actions) := by
  induction actions generalizing m with
  | nil => exact ⟨rfl, (callsAfter_zero ..).symm⟩
  | cons a rest ih =>
    have hka := ha a List.mem_cons_self
    have hsound := counts_sound.perform hka (hs ⟨m, a⟩ List.mem_cons_self)
    have htone := m.beeping_perform hka
    obtain ⟨hb, hc⟩ := ih (m := (m.perform a).state) (fun b hb => ha b (List.mem_cons_of_mem a hb))
      fun s hm => hs s (List.mem_cons_of_mem _ hm)
    rw [after_cons, run_events_cons, beeps_append, beeps_perform, hb, hc, hsound, htone]
    cases ht : a.isTick with
    | false =>
      have hk : ticks (a :: rest) = ticks rest := by simp [ticks, ht]
      have h0 : ticks [a] = 0 := by simp [ticks, ht]
      simp [hk, h0, toneCall_self]
    | true =>
      have hk : ticks (a :: rest) = ticks rest + 1 := by simp [ticks, ht]
      have h1 : ticks [a] = 1 := by simp [ticks, ht]
      rw [hk, h1, toneAfter_succ, callsAfter_succ, if_pos rfl, Countdown.active_eq]
      exact ⟨rfl, rfl⟩

/-- whatever comes between two ticks, the tone is what the last one found -/
theorem beeping_after_tick {before later : List Action}
    (hl : ∀ a ∈ later, a.keepsTime = true ∧ a.isTick = false) :
    (m.after (before ++ .tick :: later)).beeping = (m.after before).sound.active := by
  have hlater (n : Machine) : (n.after later).beeping = n.beeping := by
    induction later generalizing n with
    | nil => rfl
    | cons a rest ih =>
      obtain ⟨ha, ht⟩ := hl a List.mem_cons_self
      rw [after_cons, ih fun b hb => hl b (List.mem_cons_of_mem a hb), beeping_perform ha, ht]
      rfl
  rw [after_append, after_cons, hlater, beeping_perform rfl]
  rfl

/-- a tone goes on without a call exactly as long as no tick finds its countdown at zero -/
theorem beeps_eq_nil_iff (ha : ∀ a ∈ actions, a.keepsTime = true) (hb : m.beeping = true) :
    beeps (m.run actions).events = [] ↔
      ∀ s ∈ m.trace actions, s.action.isTick = true → s.machine.sound.active = true := by
  induction actions generalizing m with
  | nil => simp [trace, run, Outcome.quiet, beeps]
  | cons a rest ih =>
    have htone := m.beeping_perform (ha a List.mem_cons_self)
    have hrest (hp : (m.perform a).state.beeping = true) :=
      ih (fun b hb => ha b (List.mem_cons_of_mem a hb)) hp
    rw [run_events_cons, beeps_append, beeps_perform, List.append_eq_nil_iff, trace, List.forall_mem_cons, hb]
    cases ht : a.isTick with
    | false =>
      have hp : (m.perform a).state.beeping = true := by rw [htone, ht]; exact hb
      simp [hp, toneCall_self, hrest hp]
    | true =>
      cases hs : m.sound.active with
      | false =>
        have hp : (m.perform a).state.beeping = false := by rw [htone, ht]; exact hs
        simp [hp, toneCall]
      | true =>
        have hp : (m.perform a).state.beeping = true := by rw [htone, ht]; exact hs
        simp [hp, toneCall_self, hrest hp]

/-! ## Instructions that read or set a countdown -/

theorem cycle_readDelay {x : Size} (h : m.upcoming = some (.readDelay x)) :
    m.cycle.value = .ok .plain ∧ m.cycle.state.registers = m.registers.put (.ofNat 16 x.toNat) m.delay.value := by
  obtain ⟨-, hfit, -⟩ := upcoming_eq_some_iff.1 h
  have he : (m.fetched (Instruction.readDelay x).encode).effect (.readDelay x) =
      .ok { machine := { m.fetched (Instruction.readDelay x).encode with
        registers := m.registers.put (.ofNat 16 x.toNat) m.delay.value } } := by
    simp only [effect, lookup_of_fits hfit]
    rfl
  rw [cycle_of_effect h he]
  exact ⟨rfl, rfl⟩

theorem cycle_setSound {x : Size} (h : m.upcoming = some (.setSound x)) :
    m.cycle.state.sound = ⟨m.registers.get (.ofNat 16 x.toNat)⟩ := by
  obtain ⟨-, hfit, -⟩ := upcoming_eq_some_iff.1 h
  have he : (m.fetched (Instruction.setSound x).encode).effect (.setSound x) =
      .ok { machine := { m.fetched (Instruction.setSound x).encode with
        sound := ⟨m.registers.get (.ofNat 16 x.toNat)⟩ } } := by
    simp only [effect, lookup_of_fits hfit]
    rfl
  rw [cycle_of_effect h he]
  rfl

/-- a tone whose countdown is set anew lasts for as many ticks more, and is stopped once behind them -/
theorem beeps_retuned {x : Size} (h : m.upcoming = some (.setSound x)) (hb : m.beeping = true)
    (ha : ∀ a ∈ actions, a.keepsTime = true)
    (hs : ∀ s ∈ m.cycle.state.trace actions, s.runs Instruction.setsSound = false) :
    beeps (m.run (.cycle :: actions)).events =
      if (m.registers.get (.ofNat 16 x.toNat)).toNat < ticks actions then [.stopBeep] else [] := by
  obtain ⟨-, hc⟩ := tone_after ha hs
  rw [run_events_cons, beeps_append]
  show beeps m.cycle.events ++ beeps (m.cycle.state.run actions).events = _
  rw [beeps_cycle, hc, cycle_beeping, cycle_setSound h, hb]
  simp [callsAfter]

/-- **How long countdowns run and tones are on.** Take any machine, and any run without a silence, reset or load: ticks,
and cycles that run, fail or poll, in any order.

- If no cycle of it runs `FX18`, the sound countdown has lost the number of ticks, down to zero. From a countdown of `n`
  without a tone, the tone is on exactly after the ticks from the first to the `n`-th. The beeper is started once, by
  the first tick, and stopped once, by the one behind the `n`-th; with `n` zero there is no tone and no call.
- If no cycle of it runs `FX15`, the delay countdown has lost the number of ticks, and that is what an `FX07` then
  stores.
- However the countdown is set, a tick leaves the tone on exactly if it found the sound countdown above zero, and
  nothing before the next tick changes that.
- A tone goes on without any call exactly as long as no tick finds the sound countdown at zero. So one whose countdown
  is set to `v` by an `FX18` while it is on goes on for `v` ticks more without a call, and then is stopped once. -/
theorem tone_length (m : Machine) :
    (∀ actions, (∀ a ∈ actions, a.keepsTime = true) → (∀ s ∈ m.trace actions, s.runs Instruction.setsSound = false) →
      let n := m.sound.value.toNat
      let k := ticks actions
      let p := m.after actions
      p.sound.value.toNat = n - k ∧
        (m.beeping = false →
          (p.beeping = true ↔ 1 ≤ k ∧ k ≤ n) ∧
          beeps (m.run actions).events =
            (if 0 < n ∧ 1 ≤ k then [.startBeep] else []) ++ (if 0 < n ∧ n + 1 ≤ k then [.stopBeep] else []) ∧
          beeps (p.perform .tick).events =
            if 0 < n ∧ k + 1 = 1 then [.startBeep] else if 0 < n ∧ k + 1 = n + 1 then [.stopBeep] else [])) ∧
    (∀ actions, (∀ a ∈ actions, a.keepsTime = true) → (∀ s ∈ m.trace actions, s.runs Instruction.setsDelay = false) →
      let k := ticks actions
      let p := m.after actions
      p.delay.value.toNat = m.delay.value.toNat - k ∧
        ∀ x, p.upcoming = some (.readDelay x) →
          p.cycle.value = .ok .plain ∧
            (p.cycle.state.registers.get (.ofNat 16 x.toNat)).toNat = m.delay.value.toNat - k) ∧
    (∀ before later, (∀ a ∈ later, a.keepsTime = true ∧ a.isTick = false) →
      ((m.after (before ++ .tick :: later)).beeping = true ↔ (m.after before).sound.value ≠ 0)) ∧
    (m.beeping = true → ∀ actions, (∀ a ∈ actions, a.keepsTime = true) →
      (beeps (m.run actions).events = [] ↔
        ∀ s ∈ m.trace actions, s.action.isTick = true → s.machine.sound.value ≠ 0)) ∧
    ∀ x, m.beeping = true → m.upcoming = some (.setSound x) →
      ∀ actions, (∀ a ∈ actions, a.keepsTime = true) →
        (∀ s ∈ m.cycle.state.trace actions, s.runs Instruction.setsSound = false) →
        beeps (m.run (.cycle :: actions)).events =
          if (m.registers.get (.ofNat 16 x.toNat)).toNat < ticks actions then [.stopBeep] else [] := by
  refine ⟨?_, ?_, ?_, ?_, ?_⟩
  · intro actions ha hs n k p
    have hn : p.sound.value.toNat = n - k := counts_sound.after ha hs
    refine ⟨hn, ?_⟩
    intro hb
    obtain ⟨htone, hcalls⟩ : p.beeping = toneAfter false n k ∧ beeps (m.run actions).events = callsAfter false n k :=
      hb ▸ tone_after ha hs
    have hnext : (p.perform .tick).state.beeping = decide (0 < n - k) := by
      rw [beeping_perform rfl, ← hn, ← Countdown.active_eq]
      rfl
    refine ⟨?_, ?_, ?_⟩
    · rw [htone, toneAfter]
      split_ifs with hk <;> simp <;> omega
    · rw [hcalls]
      simp [callsAfter, Nat.succ_le_iff]
    · rw [beeps_perform, hnext, htone]
      exact toneCall_toneAfter n k
  · intro actions ha hs k p
    have hk : p.delay.value.toNat = m.delay.value.toNat - k := counts_delay.after ha hs
    refine ⟨hk, ?_⟩
    intro x hx
    obtain ⟨hv, hr⟩ := cycle_readDelay hx
    rw [hr, Registers.get_put, if_pos rfl]
    exact ⟨hv, hk⟩
  · intro before later hl
    rw [beeping_after_tick hl, Countdown.active_iff]
  · intro hb actions ha
    rw [beeps_eq_nil_iff ha hb]
    simp only [Countdown.active_iff]
  · intro x hb hx actions ha hs
    exact beeps_retuned hx hb ha hs

/-- both countdowns become three, one is read, a key is awaited, and the sound countdown is set again -/
def threeTicks : Rom :=
  ⟨"", [0x60, 0x03, 0xF0, 0x15, 0xF0, 0x18, 0xF1, 0x07, 0xF2, 0x0A, 0xF0, 0x18, 0x12, 0x06], by decide⟩

/-- the tone of three ticks is on while its countdown is at zero; the next tick ends it, or else it is set again and
goes on -/
theorem threeTicks_last :
    let m := (powerOn (.ofScript #[])).after [.load threeTicks, .cycle, .cycle, .cycle]
    let actions : List Action := [.tick, .tick, .cycle, .cycle, .tick, .press 1, .cycle]
    let later : List Action := [.tick, .tick, .cycle, .tick]
    let p := m.after actions
    p.sound.value.toNat = 0 ∧ p.delay.value.toNat = 0 ∧ p.beeping = true ∧
      beeps (m.run actions).events = [.startBeep] ∧ beeps (p.perform .tick).events = [.stopBeep] ∧
      beeps (p.run (.cycle :: later)).events = [] := by
  intro m actions later p
  have hm : m.beeping = false ∧ m.sound.value = 3 ∧ m.delay.value = 3 ∧
      (∀ s ∈ m.trace actions, s.runs Instruction.setsSound = false ∧ s.runs Instruction.setsDelay = false) ∧
      p.upcoming = some (.setSound 0) ∧ p.registers.get 0 = 3 ∧
      ∀ s ∈ p.cycle.state.trace later, s.runs Instruction.setsSound = false := by
    decide +kernel
  obtain ⟨hb, hn, hd, hs, hp, hv, hl⟩ := hm
  have hk : ticks actions = 3 ∧ ticks later = 3 := ⟨rfl, rfl⟩
  obtain ⟨hsound, hdelay, -⟩ := tone_length m
  obtain ⟨-, -, -, -, htune⟩ := tone_length p
  have hsound := hsound actions (by decide) fun s hm => (hs s hm).1
  have hdelay := hdelay actions (by decide) fun s hm => (hs s hm).2
  -- which run it was is settled by now
  clear_value m
  simp only [hn, hd, hk] at hsound hdelay
  obtain ⟨hzero, hrest⟩ := hsound
  obtain ⟨hon, hcalls, hnext⟩ := hrest hb
  have hpb : p.beeping = true := hon.2 (by decide)
  have hcall := htune 0 hpb hp later (by decide) hl
  rw [show Fin.ofNat 16 (0 : Size).toNat = 0 from rfl, hv, hk.2] at hcall
  exact ⟨hzero, hdelay.1, hpb, hcalls, hnext, hcall⟩

end Machine

end ChipEight
