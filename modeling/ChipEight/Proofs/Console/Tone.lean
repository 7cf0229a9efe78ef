/-
The tone of a console over its whole lifetime. Five things can end a tone: a tick that finds the sound countdown at
zero, a callback of the timer task after the run has ended, a stop, a reset or load, and the drop of the console. Two
can start one: a tick by hand, and a tick of the timer task while a run is on. Each of them calls the beeper exactly if
the tone changes, so the calls come in turn, in whichever order these happen.

Results:
- `inTune_perform`: one action calls the beeper as the tone changes;
- `beeping_of_perform`: and starts a tone only by a tick;
- `beeps_run`: the calls of a whole history are whole tones, and the start of one that is on;
- `beeper_alternates`: all of it for every history of a console, up to its drop.
-/
import ChipEight.Proofs.Console.Lifecycle
import ChipEight.Proofs.Console.Reached
import ChipEight.Proofs.Machine.Tone

namespace ChipEight

/-- the calls of `k` tones, each started and stopped -/
def wholeTones (k : Nat) : List Event := (List.replicate k [.startBeep, .stopBeep]).flatten

theorem wholeTones_append (j k : Nat) : wholeTones j ++ wholeTones k = wholeTones (j + k) := by
  rw [wholeTones, wholeTones, wholeTones, List.replicate_add, List.flatten_append]

/-- a tone that is off after all was whole, if it was on before -/
theorem toneCall_toneCall (was is : Bool) :
    ∃ k, toneCall false was ++ toneCall was is = wholeTones k ++ toneCall false is := by
  cases was with
  | false => exact ⟨0, rfl⟩
  | true =>
    cases is with
    | false => exact ⟨1, rfl⟩
    | true => exact ⟨0, rfl⟩

/-- a tone is on exactly if the last call was its start -/
theorem getLast?_wholeTones (k : Nat) (on : Bool) :
    (wholeTones k ++ toneCall false on).getLast? = some .startBeep ↔ on = true := by
  cases on with
  | true => simp [toneCall]
  | false =>
    cases k with
    | zero => simp [toneCall, wholeTones]
    | succ k =>
      have hk : wholeTones (k + 1) = wholeTones k ++ [.startBeep, .stopBeep] := (wholeTones_append k 1).symm
      simp [toneCall, hk]

theorem toneCall_false (on : Bool) : toneCall false on = if on then [.startBeep] else [] := by cases on <;> rfl

/-! ## Counting -/

namespace Event

def isStart : Event → Bool
  | .startBeep => true
  | _ => false

def isStop : Event → Bool
  | .stopBeep => true
  | _ => false

end Event

/-- what is only true of calls of the beeper is counted among them -/
theorem countP_beeps {p : Event → Bool} (hp : ∀ ev, p ev = true → ev.onBeeper = true) (events : List Event) :
    (beeps events).countP p = events.countP p := by
  rw [beeps, List.countP_filter]
  refine List.countP_congr fun ev _ => ?_
  rw [Bool.and_eq_true]
  exact ⟨fun h => h.1, fun h => ⟨h, hp ev h⟩⟩

theorem countP_wholeTones (p : Event → Bool) (k : Nat) :
    (wholeTones k).countP p = k * [Event.startBeep, .stopBeep].countP p := by
  induction k with
  | zero => rw [Nat.zero_mul]; rfl
  | succ k ih => rw [← wholeTones_append, List.countP_append, ih, Nat.succ_mul]; rfl

/-- whole tones are started as often as stopped -/
theorem balanced_of_beeps {events : List Event} {k : Nat} (h : beeps events = wholeTones k) :
    events.countP Event.isStart = k ∧ events.countP Event.isStop = k := by
  have hstart : ∀ ev, Event.isStart ev = true → ev.onBeeper = true := by
    intro ev hev
    cases ev with
    | startBeep => rfl
    | _ => cases hev
  have hstop : ∀ ev, Event.isStop ev = true → ev.onBeeper = true := by
    intro ev hev
    cases ev with
    | stopBeep => rfl
    | _ => cases hev
  rw [← countP_beeps hstart, ← countP_beeps hstop, h, countP_wholeTones, countP_wholeTones]
  exact ⟨Nat.mul_one k, Nat.mul_one k⟩

namespace Console

/-- the beeper is called exactly if the tone of the console changes, and then once -/
def InTune {α : Type} (c : Console) (o : Outcome Event Console α) : Prop :=
  beeps o.events = toneCall c.machine.beeping o.state.machine.beeping

/-! ## Operations -/

theorem stop_beeping (c : Console) : c.stop.state.machine.beeping = false := by
  rw [stop_machine, Machine.silence_state]

/-- a stop ends the tone, if one is on -/
theorem beeps_stop (c : Console) : beeps c.stop.events = toneCall c.machine.beeping false := by
  have hr : beeps (if c.running then [.log .stopped] else []) = [] := by cases c.running <;> rfl
  have hn : beeps stopNotes = [] := rfl
  rw [stop_eq, beeps_append, beeps_append, hn, hr, Machine.beeps_silence, List.append_nil]
  rfl

theorem inTune_stop (c : Console) : InTune c c.stop := by
  rw [InTune, beeps_stop, stop_beeping]

theorem beeps_start (c : Console) : beeps c.start.events = [] := by
  cases hr : c.running with
  | true => rw [start_of_running hr]; rfl
  | false => rw [start_of_stopped hr]; rfl

theorem beeps_startIf (c : Console) (begin : Bool) : beeps (c.startIf begin).events = [] := by
  cases begin with
  | true => exact c.beeps_start
  | false => rfl

theorem load_beeping (c : Console) (rom : Rom) (begin : Bool) :
    (c.load rom begin).state.machine.beeping = false := by
  rw [load_machine, Machine.load_state]
  rfl

theorem reset_beeping (c : Console) : c.reset.state.machine.beeping = false := by
  rw [reset_machine, Machine.reset_state]
  rfl

/-- what comes after the stop calls the beeper no more -/
theorem beeps_load (c : Console) (rom : Rom) (begin : Bool) :
    beeps (c.load rom begin).events = toneCall c.machine.beeping false := by
  rw [load_eq, beeps_append, beeps_append, beeps_stop, beeps_startIf, List.append_nil]
  exact List.append_nil _

theorem inTune_load (c : Console) (rom : Rom) (begin : Bool) : InTune c (c.load rom begin) := by
  rw [InTune, beeps_load, load_beeping]

theorem inTune_reload (c : Console) (begin : Bool) : InTune c (c.reload begin) := by
  cases hr : c.rom with
  | none => rw [reload_of_none hr]; exact (toneCall_self _).symm
  | some rom => rw [reload_of_rom hr]; exact c.inTune_load rom begin

theorem inTune_reset (c : Console) : InTune c c.reset := by
  rw [InTune, reset_beeping, reset_eq, beeps_append, beeps_stop]
  exact List.append_nil _

theorem inTune_start (c : Console) : InTune c c.start := by
  rw [InTune, beeps_start, start_machine, toneCall_self]

theorem inTune_setSpeed (c : Console) (speed : Float) : InTune c (c.setSpeed speed) := by
  cases hv : Pace.isSpeed speed with
  | false => rw [setSpeed_of_invalid hv]; exact (toneCall_self _).symm
  | true =>
    cases hr : c.running with
    | false => rw [setSpeed_of_stopped hv hr]; exact (toneCall_self _).symm
    | true =>
      rw [setSpeed_of_running hv hr, InTune, beeps_append, beeps_stop]
      exact List.append_nil _

/-! ## Callbacks -/

theorem cpuTurn_events (c : Console) : beeps c.cpuTurn.events = [] := by
  unfold cpuTurn
  split
  · have hs : beeps c.step.events = [] := c.machine.beeps_cycle
    dsimp only
    split
    · exact hs
    · rw [beeps_append, hs]; rfl
    · exact hs
  · rfl

theorem inTune_turn (c : Console) (name : TaskName) : InTune c (c.turn name) := by
  cases name with
  | cpu =>
    have hm : c.cpuTurn.state.machine.beeping = c.machine.beeping := by
      rw [cpuTurn_machine]
      split
      · exact c.machine.cycle_beeping
      · rfl
    show beeps c.cpuTurn.events = toneCall c.machine.beeping c.cpuTurn.state.machine.beeping
    rw [cpuTurn_events, hm, toneCall_self]
  | timer =>
    show beeps c.timerTurn.events = toneCall c.machine.beeping c.timerTurn.state.machine.beeping
    rw [timerTurn_machine]
    unfold timerTurn
    split
    · exact c.machine.beeps_perform .tick
    · exact c.machine.beeps_perform .silence

theorem inTune_called (c : Console) (name : TaskName) (which : Callback) : InTune c (c.called name which) := by
  rw [InTune, called_events, called_machine]
  exact c.inTune_turn name

/-! ## Actions -/

theorem inTune_perform (c : Console) (a : Action) : InTune c (c.perform a) := by
  cases a with
  | load rom begin => exact c.inTune_load rom begin
  | reload begin => exact c.inTune_reload begin
  | reset => exact c.inTune_reset
  | start => exact c.inTune_start
  | stop => exact c.inTune_stop
  | setSpeed speed => exact c.inTune_setSpeed speed
  | step => exact c.machine.beeps_perform .cycle
  | tick => exact c.machine.beeps_perform .tick
  | takeError => exact (toneCall_self _).symm
  | call name =>
    rw [perform_call]
    split_ifs
    · exact c.inTune_called name .current
    · exact (toneCall_self _).symm
  | stray name => exact c.inTune_turn name
  | hold key => exact (toneCall_self _).symm

theorem beeping_of_turn {c : Console} {name : TaskName} (h : (c.turn name).state.machine.beeping = true) :
    c.machine.beeping = true ∨ c.running = true ∧ name = .timer := by
  cases name with
  | cpu =>
    have h : c.cpuTurn.state.machine.beeping = true := h
    rw [cpuTurn_machine] at h
    split at h
    · exact .inl (c.machine.cycle_beeping ▸ h)
    · exact .inl h
  | timer =>
    have h : c.timerTurn.state.machine.beeping = true := h
    rw [timerTurn_machine] at h
    split at h
    · exact .inr ⟨by assumption, rfl⟩
    · rw [Machine.silence_state] at h
      cases h

/-- a tone that is on after an action was on before, or a tick has started it -/
theorem beeping_of_perform {c : Console} {a : Action} (h : (c.perform a).state.machine.beeping = true) :
    c.machine.beeping = true ∨ a = .tick ∨ c.running = true ∧ (a = .call .timer ∨ a = .stray .timer) := by
  cases a with
  | load rom begin =>
    have h : (c.load rom begin).state.machine.beeping = true := h
    rw [load_beeping] at h
    cases h
  | reload begin =>
    have h : (c.reload begin).state.machine.beeping = true := h
    cases hr : c.rom with
    | none =>
      rw [reload_of_none hr] at h
      exact .inl h
    | some rom =>
      rw [reload_of_rom hr] at h
      have hl : (c.load rom begin).state.machine.beeping = true := h
      rw [load_beeping] at hl
      cases hl
  | reset =>
    have h : c.reset.state.machine.beeping = true := h
    rw [reset_beeping] at h
    cases h
  | start =>
    have h : c.start.state.machine.beeping = true := h
    rw [start_machine] at h
    exact .inl h
  | stop =>
    have h : c.stop.state.machine.beeping = true := h
    rw [stop_beeping] at h
    cases h
  | setSpeed speed =>
    have h : (c.setSpeed speed).state.machine.beeping = true := h
    rcases c.setSpeed_machine speed with hm | hm
    · exact .inl (hm ▸ h)
    · rw [hm, Machine.silence_state] at h
      cases h
  | step => exact .inl (c.machine.cycle_beeping ▸ h)
  | tick => exact .inr (.inl rfl)
  | takeError => exact .inl h
  | call name =>
    rw [perform_call] at h
    split_ifs at h
    · have h : (c.called name .current).state.machine.beeping = true := h
      rw [called_machine] at h
      rcases beeping_of_turn h with hb | ⟨hr, rfl⟩
      · exact .inl hb
      · exact .inr (.inr ⟨hr, .inl rfl⟩)
    · exact .inl h
  | stray name =>
    rcases beeping_of_turn h with hb | ⟨hr, rfl⟩
    · exact .inl hb
    · exact .inr (.inr ⟨hr, .inr rfl⟩)
  | hold key => exact .inl h

/-- the beeper is started only by a tick, and without a run only by one by hand -/
theorem tick_of_startBeep {c : Console} {a : Action} (h : .startBeep ∈ (c.perform a).events) :
    a = .tick ∨ c.running = true ∧ (a = .call .timer ∨ a = .stray .timer) := by
  have hb : .startBeep ∈ beeps (c.perform a).events := List.mem_filter.2 ⟨h, rfl⟩
  rw [c.inTune_perform a] at hb
  obtain ⟨hwas, his⟩ := startBeep_mem_toneCall hb
  rcases beeping_of_perform his with h | h
  · rw [hwas] at h; cases h
  · exact h

/-! ## Histories -/

theorem beeps_run (c : Console) (actions : List Action) :
    ∃ k, toneCall false c.machine.beeping ++ beeps (c.run actions).events =
      wholeTones k ++ toneCall false (c.after actions).machine.beeping := by
  induction actions generalizing c with
  | nil => exact ⟨0, List.append_nil _⟩
  | cons a rest ih =>
    obtain ⟨j, hj⟩ := toneCall_toneCall c.machine.beeping (c.perform a).state.machine.beeping
    obtain ⟨k, hk⟩ := ih (c.perform a).state
    have he : beeps (c.run (a :: rest)).events =
        beeps (c.perform a).events ++ beeps ((c.perform a).state.run rest).events := beeps_append ..
    refine ⟨j + k, ?_⟩
    calc toneCall false c.machine.beeping ++ beeps (c.run (a :: rest)).events
        = (toneCall false c.machine.beeping ++ toneCall c.machine.beeping (c.perform a).state.machine.beeping) ++
            beeps ((c.perform a).state.run rest).events := by
          rw [he, c.inTune_perform a, List.append_assoc]
      _ = wholeTones j ++ (toneCall false (c.perform a).state.machine.beeping ++
            beeps ((c.perform a).state.run rest).events) := by
          rw [hj, List.append_assoc]
      _ = wholeTones (j + k) ++ toneCall false (c.after (a :: rest)).machine.beeping := by
          rw [hk, ← List.append_assoc, wholeTones_append]
          rfl

/-- **The beeper is called in turn, over the whole lifetime of a console.** Take a console that was powered on, after
any history.

- Up to here the beeper was started and stopped in turn, the start first, and the tone is on exactly if the last call
  was a start.
- No tone is on right after a stop, a load or a reset, whether a run is started then or not.
- An action starts the beeper only if it is a tick by hand, or a call of the timer task while a run is on.
- Once the console is dropped no tone is on, and the beeper was started and stopped in turn, equally often. -/
theorem beeper_alternates (pace : Pace) (random : RandomBytes) (actions : List Action) :
    let o := (powerOn pace random).run actions
    let d := (powerOn pace random).runAndDrop actions
    (∃ k, beeps o.events = wholeTones k ++ if o.state.machine.beeping then [.startBeep] else []) ∧
      (o.state.machine.beeping = true ↔ (beeps o.events).getLast? = some .startBeep) ∧
      ((o.state.perform .stop).state.machine.beeping = false ∧
        (∀ rom begin, (o.state.perform (.load rom begin)).state.machine.beeping = false) ∧
        (o.state.perform .reset).state.machine.beeping = false) ∧
      (∀ a, .startBeep ∈ (o.state.perform a).events →
        a = .tick ∨ o.state.running = true ∧ (a = .call .timer ∨ a = .stray .timer)) ∧
      d.state.machine.beeping = false ∧ (∃ k, beeps d.events = wholeTones k) ∧
      d.events.countP Event.isStart = d.events.countP Event.isStop := by
  intro o d
  obtain ⟨k, hk⟩ : ∃ k, beeps o.events = wholeTones k ++ toneCall false o.state.machine.beeping :=
    beeps_run (powerOn pace random) actions
  obtain ⟨hds, hde⟩ := runAndDrop_eq (powerOn pace random) actions
  have hoff : d.state.machine.beeping = false := by
    show ((powerOn pace random).runAndDrop actions).state.machine.beeping = false
    rw [hds, after_append]
    exact stop_beeping _
  obtain ⟨j, hj⟩ : ∃ j, beeps d.events = wholeTones j := by
    obtain ⟨j, hj⟩ := beeps_run (powerOn pace random) (actions ++ [.stop])
    rw [← hds, ← hde] at hj
    refine ⟨j, hj.trans ?_⟩
    rw [hoff]
    exact List.append_nil _
  refine ⟨⟨k, hk.trans (by rw [toneCall_false])⟩, ?_, ⟨stop_beeping _, load_beeping _, reset_beeping _⟩,
    fun a => tick_of_startBeep, hoff, ⟨j, hj⟩, ?_⟩
  · rw [hk, getLast?_wholeTones]
  · obtain ⟨hstart, hstop⟩ := balanced_of_beeps hj
    rw [hstart, hstop]

end Console

end ChipEight
