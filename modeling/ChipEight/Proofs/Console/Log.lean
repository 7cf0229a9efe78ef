/-
The log on the runs of a console. A run is opened by a message that names its speed and closed by one that says why it
ended: it was stopped, or a cycle failed. Many operations stop or start a run inside of them, and a callback of any
start can end one; each of them logs exactly what it does to the flag. So the messages alone tell whether a run is on,
and the log of a whole lifetime is one of whole runs.

`Logged was ms is` says that the messages `ms` take the flag from `was` to `is`; what an action logs does this for the
flag before and after it, and so does a history.

Results:
- `logged_perform`: one action logs what it does to the flag;
- `halting_logged_iff`: a halt is logged exactly by the callback that halts, with its error;
- `logged_run`: the messages of a history, from the flag at its start to the one at its end;
- `log_tells_runs`: all of it for every history of a console, up to its drop.
-/
import ChipEight.Proofs.Console.HaltReport
import ChipEight.Proofs.Console.Lifecycle

namespace ChipEight

/-! ## Messages on runs -/

/-- the message of the log, if it opens or closes a run -/
def Event.runMessage? : Event → Option Message
  | .log (.starting speed) => some (.starting speed)
  | .log .stopped => some .stopped
  | .log (.halting cause) => some (.halting cause)
  | _ => none

/-- what the log says on runs -/
def runLog (events : List Event) : List Message := events.filterMap Event.runMessage?

theorem runLog_append (es fs : List Event) : runLog (es ++ fs) = runLog es ++ runLog fs := List.filterMap_append ..

theorem runLog_eq_nil {es : List Event} (h : ∀ ev ∈ es, ev.runMessage? = none) : runLog es = [] :=
  List.filterMap_eq_nil_iff.2 h

theorem halting_mem_runLog_iff {es : List Event} {e : CycleError} :
    .halting e ∈ runLog es ↔ .log (.halting e) ∈ es := by
  rw [runLog, List.mem_filterMap]
  constructor
  · rintro ⟨ev, hev, hm⟩
    unfold Event.runMessage? at hm
    split at hm <;> cases hm
    exact hev
  · intro h
    exact ⟨_, h, rfl⟩

/-- these messages take the flag from one value to the other -/
inductive Logged : Bool → List Message → Bool → Prop where
  | nil (on : Bool) : Logged on [] on
  | start (speed : Float) {ms : List Message} {is : Bool} (h : Logged true ms is) :
    Logged false (.starting speed :: ms) is
  | stop {ms : List Message} {is : Bool} (h : Logged false ms is) : Logged true (.stopped :: ms) is
  | halt (e : CycleError) {ms : List Message} {is : Bool} (h : Logged false ms is) :
    Logged true (.halting e :: ms) is

theorem Logged.append {was on is : Bool} {ms ns : List Message} (hm : Logged was ms on) (hn : Logged on ns is) :
    Logged was (ms ++ ns) is := by
  induction hm with
  | nil => exact hn
  | start speed _ ih => exact .start speed (ih hn)
  | stop _ ih => exact .stop (ih hn)
  | halt e _ ih => exact .halt e (ih hn)

/-! ## Whole runs -/

/-- a run that is over, as the log tells it -/
structure PastRun where
  speed : Float
  /-- the error that halted it; without one it was stopped -/
  halt : Option CycleError

def PastRun.ending (r : PastRun) : Message :=
  match r.halt with
  | some e => .halting e
  | none => .stopped

def PastRun.messages (r : PastRun) : List Message := [.starting r.speed, r.ending]

/-- the log of some runs that are over, and then of one that is on -/
def logOf (past : List PastRun) (on : Option Float) : List Message :=
  past.flatMap PastRun.messages ++ on.toList.map .starting

theorem logOf_cons (r : PastRun) (past : List PastRun) (on : Option Float) :
    logOf (r :: past) on = .starting r.speed :: r.ending :: logOf past on := rfl

/-- behind the start of a run that is on, if one is, messages that take the flag to `is` make up whole runs, and the
start of another one if `is` is set -/
theorem Logged.exists_runs {was is : Bool} {ms : List Message} (h : Logged was ms is) (speed : Float) :
    ∃ past on, (if was then [.starting speed] else []) ++ ms = logOf past on ∧ on.isSome = is := by
  induction h generalizing speed with
  | nil on =>
    cases on with
    | false => exact ⟨[], none, rfl, rfl⟩
    | true => exact ⟨[], some speed, rfl, rfl⟩
  | start next h ih => exact ih next
  | @stop ms is h ih =>
    obtain ⟨past, on, hms, hon⟩ := ih speed
    have hms : ms = logOf past on := hms
    exact ⟨⟨speed, none⟩ :: past, on, by rw [logOf_cons, ← hms]; rfl, hon⟩
  | @halt e ms is h ih =>
    obtain ⟨past, on, hms, hon⟩ := ih speed
    have hms : ms = logOf past on := hms
    exact ⟨⟨speed, some e⟩ :: past, on, by rw [logOf_cons, ← hms]; rfl, hon⟩

/-- a run is on exactly if the last message opened one -/
theorem getLast?_logOf (past : List PastRun) (on : Option Float) :
    (∃ speed, (logOf past on).getLast? = some (.starting speed)) ↔ on.isSome = true := by
  cases on with
  | some speed => simp [logOf]
  | none =>
    simp only [Option.isSome_none, Bool.false_eq_true, iff_false, not_exists]
    intro speed h
    rcases List.eq_nil_or_concat' past with rfl | ⟨earlier, r, rfl⟩
    · cases h
    · have hlast : (logOf (earlier ++ [r]) none).getLast? = some r.ending := by
        simp [logOf, PastRun.messages]
      rw [hlast, PastRun.ending] at h
      cases hr : r.halt <;> simp [hr] at h

/-! ## The machine -/

namespace Machine

theorem runMessage?_effect {m : Machine} {i : Instruction} {e : Effect} (h : m.effect i = .ok e) :
    ∀ ev ∈ e.events, ev.runMessage? = none := by
  cases i <;> simp only [effect, bind_eq_ok] at h <;> grind [Event.runMessage?]

/-- a machine has no part in the runs of a console -/
theorem runLog_cycle (m : Machine) : runLog m.cycle.events = [] := by
  refine runLog_eq_nil ?_
  generalize ho : m.cycle = o
  have hc : Course m o := ho ▸ m.cycle_course
  cases hc with
  | polled x hx =>
    rcases m.poll_cases x with ⟨-, hp⟩ | ⟨key, -, -, hp⟩ | ⟨key, i, -, -, hp⟩ <;>
      simp [hp, Outcome.quiet, Event.runMessage?]
  | unfetched hx hp | unknown w hx hw hi => simp [Outcome.quiet]
  | failed i f hx hw hi hf => simp [Event.runMessage?]
  | done i e hx hw hi he =>
    intro ev hev
    rcases List.mem_cons.1 hev with rfl | hev
    · rfl
    · exact runMessage?_effect he ev hev

theorem runLog_silence (m : Machine) : runLog m.silence.events = [] := by
  rw [silence_eq]
  cases m.beeping <;> rfl

theorem runLog_tick (m : Machine) : runLog m.tick.events = [] := by
  unfold tick sing silence
  cases hs : m.sound.active <;> cases hb : m.beeping <;> rfl

end Machine

namespace Console

variable {c : Console}

/-! ## Operations -/

theorem runLog_stop (c : Console) : runLog c.stop.events = if c.running then [.stopped] else [] := by
  have hn : runLog stopNotes = [] := rfl
  rw [stop_eq, runLog_append, runLog_append, hn, Machine.runLog_silence]
  cases c.running <;> rfl

theorem runLog_start (c : Console) :
    runLog c.start.events = if c.running then [] else [.starting c.pace.speed] := by
  cases hr : c.running with
  | true => rw [start_of_running hr]; rfl
  | false => rw [start_of_stopped hr]; rfl

theorem runLog_load (c : Console) (rom : Rom) (begin : Bool) :
    runLog (c.load rom begin).events = runLog c.stop.events ++ if begin then [.starting c.pace.speed] else [] := by
  rw [load_eq, runLog_append, runLog_append]
  cases begin with
  | false => exact List.append_assoc ..
  | true =>
    have hs : runLog ((c.loaded rom).startIf true).events = [.starting c.pace.speed] := (c.loaded rom).runLog_start
    rw [hs]
    simp [runLog, Event.runMessage?]

theorem runLog_reset (c : Console) : runLog c.reset.events = runLog c.stop.events := by
  rw [reset_eq, runLog_append]
  exact List.append_nil _

theorem runLog_setSpeed_of_running {speed : Float} (hv : Pace.isSpeed speed = true) (hr : c.running = true) :
    runLog (c.setSpeed speed).events = [.stopped, .starting speed] := by
  rw [setSpeed_of_running hv hr, runLog_append, runLog_stop, if_pos hr]
  rfl

theorem logged_stop (c : Console) : Logged c.running (runLog c.stop.events) false := by
  rw [runLog_stop]
  cases c.running with
  | false => exact .nil false
  | true => exact .stop (.nil false)

theorem logged_start (c : Console) : Logged c.running (runLog c.start.events) c.start.state.running := by
  rw [runLog_start]
  cases hr : c.running with
  | false => rw [start_of_stopped hr]; exact .start _ (.nil true)
  | true => rw [start_of_running hr, hr]; exact .nil true

theorem logged_load (c : Console) (rom : Rom) (begin : Bool) :
    Logged c.running (runLog (c.load rom begin).events) (c.load rom begin).state.running := by
  rw [runLog_load]
  refine c.logged_stop.append ?_
  rw [load_eq]
  cases begin with
  | false => exact .nil false
  | true => exact .start _ (.nil true)

theorem logged_reload (c : Console) (begin : Bool) :
    Logged c.running (runLog (c.reload begin).events) (c.reload begin).state.running := by
  cases hr : c.rom with
  | none => rw [reload_of_none hr]; exact .nil _
  | some rom => rw [reload_of_rom hr]; exact c.logged_load rom begin

theorem logged_reset (c : Console) : Logged c.running (runLog c.reset.events) c.reset.state.running := by
  rw [runLog_reset, reset_eq]
  exact c.logged_stop

theorem logged_setSpeed (c : Console) (speed : Float) :
    Logged c.running (runLog (c.setSpeed speed).events) (c.setSpeed speed).state.running := by
  cases hv : Pace.isSpeed speed with
  | false => rw [setSpeed_of_invalid hv]; exact .nil _
  | true =>
    cases hr : c.running with
    | false =>
      rw [setSpeed_of_stopped hv hr]
      show Logged false [] c.running
      rw [hr]
      exact .nil false
    | true =>
      rw [runLog_setSpeed_of_running hv hr, setSpeed_of_running hv hr]
      exact .stop (.start speed (.nil true))

/-! ## Callbacks -/

theorem runLog_turn_of_halt {e : CycleError} (hr : c.running = true)
    (he : c.machine.cycle.value = .error (.error e)) : runLog (c.turn .cpu).events = [.halting e] := by
  have hv : c.step.value = .error (.error e) := he
  have hs : runLog c.step.events = [] := c.machine.runLog_cycle
  simp only [turn, cpuTurn, hr, if_true, hv, runLog_append, hs]
  rfl

theorem runLog_turn {name : TaskName}
    (h : ∀ e, name = .cpu → c.running = true → c.machine.cycle.value ≠ .error (.error e)) :
    runLog (c.turn name).events = [] := by
  have hs : runLog c.step.events = [] := c.machine.runLog_cycle
  cases name with
  | timer =>
    show runLog c.timerTurn.events = []
    unfold timerTurn
    split
    · exact c.machine.runLog_tick
    · exact c.machine.runLog_silence
  | cpu =>
    show runLog c.cpuTurn.events = []
    unfold cpuTurn
    split
    · rename_i hr
      dsimp only
      split
      · exact hs
      · rename_i e he
        exact absurd he (h e rfl hr)
      · exact hs
    · rfl

theorem logged_turn (c : Console) (name : TaskName) :
    Logged c.running (runLog (c.turn name).events) (c.turn name).state.running := by
  rcases c.turn_flags name with ⟨e, rfl, hr, he, -, hn⟩ | ⟨hh, -, hn⟩
  · rw [runLog_turn_of_halt hr he, hr, hn]
    exact .halt e (.nil false)
  · rw [runLog_turn hh, hn]
    exact .nil _

/-! ## Actions -/

theorem logged_perform (c : Console) (a : Action) :
    Logged c.running (runLog (c.perform a).events) (c.perform a).state.running := by
  cases a with
  | load rom begin => exact c.logged_load rom begin
  | reload begin => exact c.logged_reload begin
  | reset => exact c.logged_reset
  | start => exact c.logged_start
  | stop =>
    show Logged c.running (runLog c.stop.events) c.stop.state.running
    rw [stop_running]
    exact c.logged_stop
  | setSpeed speed => exact c.logged_setSpeed speed
  | step =>
    show Logged c.running (runLog c.machine.cycle.events) c.running
    rw [Machine.runLog_cycle]
    exact .nil _
  | tick =>
    show Logged c.running (runLog c.machine.tick.events) c.running
    rw [Machine.runLog_tick]
    exact .nil _
  | takeError | hold key => exact .nil _
  | call name =>
    rw [perform_call]
    split_ifs
    · show Logged c.running (runLog (c.called name .current).events) (c.called name .current).state.running
      rw [called_events, (c.called_flags name .current).2]
      exact c.logged_turn name
    · exact .nil _
  | stray name => exact c.logged_turn name

theorem halting_mem_turn {name : TaskName} {e : CycleError} (h : .log (.halting e) ∈ (c.turn name).events) :
    name = .cpu ∧ c.running = true ∧ c.machine.cycle.value = .error (.error e) := by
  rw [← halting_mem_runLog_iff] at h
  rcases c.turn_flags name with ⟨e', rfl, hr, he, -⟩ | ⟨hh, -⟩
  · rw [runLog_turn_of_halt hr he, List.mem_singleton] at h
    cases h
    exact ⟨rfl, hr, he⟩
  · rw [runLog_turn hh] at h
    cases h

theorem halting_not_mem_stop {e : CycleError} : .log (.halting e) ∉ c.stop.events := by
  rw [← halting_mem_runLog_iff, runLog_stop]
  cases c.running <;> simp

theorem halting_not_mem_start {e : CycleError} : .log (.halting e) ∉ c.start.events := by
  rw [← halting_mem_runLog_iff, runLog_start]
  cases c.running <;> simp

theorem halting_not_mem_load {rom : Rom} {begin : Bool} {e : CycleError} :
    .log (.halting e) ∉ (c.load rom begin).events := by
  rw [← halting_mem_runLog_iff, runLog_load, runLog_stop]
  cases c.running <;> cases begin <;> simp

theorem halting_not_mem_reload {begin : Bool} {e : CycleError} : .log (.halting e) ∉ (c.reload begin).events := by
  cases hr : c.rom with
  | none => rw [reload_of_none hr]; exact List.not_mem_nil
  | some rom => rw [reload_of_rom hr]; exact halting_not_mem_load

theorem halting_not_mem_reset {e : CycleError} : .log (.halting e) ∉ c.reset.events := by
  rw [← halting_mem_runLog_iff, runLog_reset, halting_mem_runLog_iff]
  exact halting_not_mem_stop

theorem halting_not_mem_setSpeed {speed : Float} {e : CycleError} :
    .log (.halting e) ∉ (c.setSpeed speed).events := by
  cases hv : Pace.isSpeed speed with
  | false => rw [setSpeed_of_invalid hv]; exact List.not_mem_nil
  | true =>
    cases hr : c.running with
    | false => rw [setSpeed_of_stopped hv hr]; exact List.not_mem_nil
    | true =>
      rw [← halting_mem_runLog_iff, runLog_setSpeed_of_running hv hr]
      simp

/-- a halt is logged by the callback that halts, with its error, and by nothing else -/
theorem halting_logged_iff {a : Action} {e : CycleError} :
    .log (.halting e) ∈ (c.perform a).events ↔ c.HaltsWith a e := by
  constructor
  · intro h
    cases a with
    | call name =>
      rw [perform_call] at h
      split_ifs at h with hhas
      · have h : .log (.halting e) ∈ (c.called name .current).events := h
        rw [called_events] at h
        obtain ⟨rfl, hr, he⟩ := halting_mem_turn h
        exact .current e hr hhas he
      · cases h
    | stray name =>
      obtain ⟨rfl, hr, he⟩ := halting_mem_turn h
      exact .stray e hr he
    | load rom begin => exact absurd h halting_not_mem_load
    | reload begin => exact absurd h halting_not_mem_reload
    | reset => exact absurd h halting_not_mem_reset
    | stop => exact absurd h halting_not_mem_stop
    | start => exact absurd h halting_not_mem_start
    | setSpeed speed => exact absurd h halting_not_mem_setSpeed
    | step =>
      have h : .log (.halting e) ∈ c.machine.cycle.events := h
      rw [← halting_mem_runLog_iff, Machine.runLog_cycle] at h
      cases h
    | tick =>
      have h : .log (.halting e) ∈ c.machine.tick.events := h
      rw [← halting_mem_runLog_iff, Machine.runLog_tick] at h
      cases h
    | takeError | hold key => cases h
  · intro h
    rw [← halting_mem_runLog_iff]
    cases h with
    | current e hr hl he =>
      have hhas : (c.task .cpu).has .current = true := hl
      rw [perform_call, if_pos hhas]
      show .halting e ∈ runLog (c.called .cpu .current).events
      rw [called_events, runLog_turn_of_halt hr he]
      exact List.mem_singleton_self _
    | stray e hr he =>
      show .halting e ∈ runLog (c.turn .cpu).events
      rw [runLog_turn_of_halt hr he]
      exact List.mem_singleton_self _

/-! ## Histories -/

theorem logged_run (c : Console) (actions : List Action) :
    Logged c.running (runLog (c.run actions).events) (c.after actions).running := by
  induction actions generalizing c with
  | nil => exact .nil _
  | cons a rest ih =>
    have he : runLog (c.run (a :: rest)).events =
        runLog (c.perform a).events ++ runLog ((c.perform a).state.run rest).events := runLog_append ..
    rw [he]
    exact (c.logged_perform a).append (ih _)

/-- **The log tells the runs.** Take a console that was powered on, after any history.

- What the log says on runs is that of some runs that are over, each opened by its start and closed by exactly one
  message, that it was stopped or why it halted, and behind them the start of one more if a run is on.
- So a run is on exactly if the last of these messages is a start.
- An action logs a halt exactly if it is a callback that halts the run. It names the error that is held right after it,
  which is what is handed out next.
- A start while a run is on says that it is, and does nothing else.
- Once the console is dropped, the log is one of whole runs. -/
theorem log_tells_runs (pace : Pace) (random : RandomBytes) (actions : List Action) :
    let o := (powerOn pace random).run actions
    let d := (powerOn pace random).runAndDrop actions
    (∃ past on, runLog o.events = logOf past on ∧ on.isSome = o.state.running) ∧
    (o.state.running = true ↔ ∃ speed, (runLog o.events).getLast? = some (.starting speed)) ∧
    (∀ a e, .log (.halting e) ∈ (o.state.perform a).events ↔ o.state.HaltsWith a e) ∧
    (∀ a e, .log (.halting e) ∈ (o.state.perform a).events →
      (o.state.perform a).state.running = false ∧ (o.state.perform a).state.halted = some e ∧
        ((o.state.perform a).state.perform .takeError).value = .taken (some e)) ∧
    (o.state.running = true → o.state.perform .start = ⟨.nothing, o.state, [.log .alreadyRunning]⟩) ∧
    d.state.running = false ∧ ∃ past, runLog d.events = logOf past none := by
  intro o d
  have hlog : Logged false (runLog o.events) o.state.running := (powerOn pace random).logged_run actions
  obtain ⟨past, on, hpast, hon⟩ := hlog.exists_runs 0
  have hpast : runLog o.events = logOf past on := hpast
  obtain ⟨hds, hde⟩ := runAndDrop_eq (powerOn pace random) actions
  have hoff : d.state.running = false := by
    show ((powerOn pace random).runAndDrop actions).state.running = false
    rw [hds, after_snoc]
    exact stop_running _
  refine ⟨⟨past, on, hpast, hon⟩, ?_, fun a e => halting_logged_iff, fun a e h => ?_, fun hr => ?_, hoff, ?_⟩
  · rw [hpast, getLast?_logOf, hon]
  · have hi : o.state.running = true → o.state.halted = none :=
      idle_after (c := powerOn pace random) (fun _ => rfl) actions
    obtain ⟨hh, hr⟩ := perform_halts hi (halting_logged_iff.1 h)
    refine ⟨hr, hh, ?_⟩
    rw [perform_takeError, hh]
  · show o.state.start.map (fun _ => Reply.nothing) = _
    rw [start_of_running hr]
    rfl
  · have hdrop : Logged false (runLog d.events) d.state.running := by
      show Logged _ (runLog ((powerOn pace random).runAndDrop actions).events)
        ((powerOn pace random).runAndDrop actions).state.running
      rw [hds, hde]
      exact (powerOn pace random).logged_run (actions ++ [.stop])
    rw [hoff] at hdrop
    obtain ⟨whole, last, hwhole, hlast⟩ := hdrop.exists_runs 0
    have hwhole : runLog d.events = logOf whole last := hwhole
    obtain rfl : last = none := by simpa using hlast
    exact ⟨whole, hwhole⟩

end Console

end ChipEight
