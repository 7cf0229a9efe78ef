/-
The halt report. A cycle that fails in a callback of the cpu task ends the run and leaves its cause as the report. The
report is held until it is taken, until a load, a successful reload or a reset, or until a start that starts a run; and
nothing else makes one or discards one: no failing step by hand, no tick, stop or change of the speed, no reload without
a rom, and no callback that is called after the halt.

What carries this is that a running console has nothing to report: a start clears the report before it sets the flag,
and a halt clears the flag when it leaves one. So a report is never overwritten, and a change of the speed, which stops
and starts a run inside of it, finds none.

Results:
- `perform_moves`: what one action does to flag and report, and why;
- `quiet_after`: while nothing takes or discards a report, it is held and the flag stays clear;
- `halted_iff`: a report is held exactly if a callback halted with it and nothing has taken or discarded it since;
- `report_exact`: all of it for every history of a console.
-/
import ChipEight.Console.History
import Mathlib.Tactic

namespace ChipEight.Console

/-- a callback of the cpu task, from whichever start, runs a cycle that fails with `e` -/
inductive HaltsWith (c : Console) : Action → CycleError → Prop where
  | current (e : CycleError) (hr : c.running = true) (hl : c.cpu.live.isSome = true)
    (he : c.machine.cycle.value = .error (.error e)) : HaltsWith c (.call .cpu) e
  | stray (e : CycleError) (hr : c.running = true) (he : c.machine.cycle.value = .error (.error e)) :
    HaltsWith c (.stray .cpu) e

/-- the action takes the report, or discards it -/
inductive Clears (c : Console) : Action → Prop where
  | takeError : Clears c .takeError
  | load (rom : Rom) (begin : Bool) : Clears c (.load rom begin)
  /-- there is a rom to be loaded again -/
  | reload (begin : Bool) (hr : c.rom ≠ none) : Clears c (.reload begin)
  | reset : Clears c .reset
  /-- no run is on, so one is started -/
  | start (hr : c.running = false) : Clears c .start

/-- the action has nothing to do with the report, whatever comes of it -/
inductive Bystander (c : Console) : Action → Prop where
  | step : Bystander c .step
  | tick : Bystander c .tick
  | stop : Bystander c .stop
  | setSpeed (speed : Float) : Bystander c (.setSpeed speed)
  /-- there is no rom to be loaded again -/
  | reload (begin : Bool) (hr : c.rom = none) : Bystander c (.reload begin)
  /-- a run is on, so none is started -/
  | start (hr : c.running = true) : Bystander c .start
  /-- the run has ended -/
  | call (name : TaskName) (hr : c.running = false) : Bystander c (.call name)
  /-- the run has ended, and the callback is one of an earlier start -/
  | stray (name : TaskName) (hr : c.running = false) : Bystander c (.stray name)
  | timer : Bystander c (.call .timer)
  | strayTimer : Bystander c (.stray .timer)
  | hold (key : Option (Fin 16)) : Bystander c (.hold key)

/-- a history in which no action takes or discards a report -/
def Quiet (c : Console) : List Action → Prop
  | [] => True
  | a :: rest => ¬ c.Clears a ∧ Quiet (c.perform a).state rest

/-- a callback halted within this history with `e`, and the history is quiet from there on -/
def HaltedIn (c : Console) (actions : List Action) (e : CycleError) : Prop :=
  ∃ before b later, actions = before ++ b :: later ∧ (c.after before).HaltsWith b e ∧
    (c.after (before ++ [b])).Quiet later

/-- what an action does to the flag and the report -/
inductive Moves (c : Console) (a : Action) (n : Console) : Prop where
  | halts (e : CycleError) (h : c.HaltsWith a e) (hn : n.halted = some e) (hr : n.running = false)
  | clears (h : c.Clears a) (hn : n.halted = none)
  | keeps (hh : ∀ e, ¬ c.HaltsWith a e) (hc : ¬ c.Clears a) (hn : n.halted = c.halted)
    (hr : c.running = false → n.running = false)

/-! ## Operations -/

variable {c : Console}

theorem stop_running (c : Console) : c.stop.state.running = false := by
  unfold stop
  split_ifs <;> rfl

theorem stop_halted (c : Console) : c.stop.state.halted = c.halted := by
  unfold stop
  split_ifs <;> rfl

theorem start_halted (h : c.running = false) : c.start.state.halted = none := by
  simp only [start, h]
  rfl

theorem startIf_halted (h : c.halted = none) (begin : Bool) : (c.startIf begin).state.halted = none := by
  cases begin with
  | false => exact h
  | true =>
    cases hr : c.running with
    | false => exact start_halted hr
    | true =>
      show c.start.state.halted = none
      simp only [start, hr]
      exact h

theorem load_halted (c : Console) (rom : Rom) (begin : Bool) : (c.load rom begin).state.halted = none :=
  startIf_halted rfl begin

theorem setSpeed_halted (h : c.running = true → c.halted = none) (speed : Float) :
    (c.setSpeed speed).state.halted = c.halted := by
  unfold setSpeed
  split
  · rfl
  · cases hr : c.running with
    | false => rfl
    | true =>
      rename_i pace _
      have hs := start_halted (stop_running { c with pace })
      simp only [hr] at hs
      exact hs.trans (h hr).symm

theorem setSpeed_running (h : c.running = false) (speed : Float) : (c.setSpeed speed).state.running = false := by
  unfold setSpeed
  split
  · exact h
  · rename_i pace _
    simp only [h, Bool.false_eq_true, if_false]
    exact rfl

/-! ## Callbacks -/

/-- what a turn of a task does to the flag and the report -/
theorem turn_flags (c : Console) (name : TaskName) :
    (∃ e, name = .cpu ∧ c.running = true ∧ c.machine.cycle.value = .error (.error e) ∧
      (c.turn name).state.halted = some e ∧ (c.turn name).state.running = false) ∨
    ((∀ e, name = .cpu → c.running = true → c.machine.cycle.value ≠ .error (.error e)) ∧
      (c.turn name).state.halted = c.halted ∧ (c.turn name).state.running = c.running) := by
  cases name with
  | timer =>
    have ht : c.timerTurn.state.halted = c.halted ∧ c.timerTurn.state.running = c.running := by
      unfold timerTurn
      split_ifs <;> exact ⟨rfl, rfl⟩
    exact .inr ⟨fun _ he => (by cases he), ht⟩
  | cpu =>
    cases hr : c.running with
    | false =>
      have ho : c.turn .cpu = .quiet .finish c := by simp [turn, cpuTurn, hr]
      rw [ho]
      exact .inr ⟨fun _ _ h => (by cases h), rfl, hr⟩
    | true =>
      have hs : c.step.value = c.machine.cycle.value := rfl
      have hk : c.step.state.halted = c.halted ∧ c.step.state.running = true := ⟨rfl, hr⟩
      simp only [turn, cpuTurn, hr, if_true, hs]
      cases hv : c.machine.cycle.value with
      | ok op => exact .inr ⟨fun _ _ _ h => (by cases h), hk⟩
      | error f =>
        cases f with
        | error e => exact .inl ⟨e, trivial, trivial, rfl, rfl, rfl⟩
        | contract => exact .inr ⟨fun _ _ _ h => (by cases h), hk⟩

theorem called_flags (c : Console) (name : TaskName) (which : Callback) :
    (c.called name which).state.halted = (c.turn name).state.halted ∧
      (c.called name which).state.running = (c.turn name).state.running := by
  simp only [called]
  split
  · exact ⟨rfl, rfl⟩
  · cases name <;> exact ⟨rfl, rfl⟩

/-! ## One action -/

theorem perform_moves (h : c.running = true → c.halted = none) (a : Action) : Moves c a (c.perform a).state := by
  cases a with
  | load rom begin => exact .clears (.load rom begin) (c.load_halted rom begin)
  | reload begin =>
    show Moves c _ (c.reload begin).state
    cases hr : c.rom with
    | none =>
      simp only [reload, hr]
      refine .keeps nofun ?_ rfl id
      rintro (_ | _)
      contradiction
    | some rom =>
      simp only [reload, hr]
      exact .clears (.reload begin (by simp [hr])) (load_halted { c with rom := none } rom begin)
  | reset => exact .clears .reset rfl
  | start =>
    show Moves c _ c.start.state
    cases hr : c.running with
    | false => exact .clears (.start hr) (start_halted hr)
    | true =>
      refine .keeps nofun ?_ ?_ ?_
      · rintro (_ | _)
        simp_all
      · simp only [start, hr]; rfl
      · simp [hr]
  | stop => exact .keeps nofun nofun c.stop_halted fun _ => c.stop_running
  | setSpeed speed => exact .keeps nofun nofun (setSpeed_halted h speed) fun hr => setSpeed_running hr speed
  | step => exact .keeps nofun nofun rfl id
  | tick => exact .keeps nofun nofun rfl id
  | takeError => exact .clears .takeError rfl
  | call name =>
    by_cases hl : (c.task name).has .current = true
    · have hp : (c.perform (.call name)).state = (c.called name .current).state := by
        simp only [perform, call, if_pos hl]
        rfl
      obtain ⟨hh, hs⟩ := c.called_flags name .current
      rw [← hp] at hh hs
      rcases c.turn_flags name with ⟨e, rfl, hr, he, hn, hs'⟩ | ⟨hne, hn, hs'⟩
      · exact .halts e (.current e hr hl he) (hh.trans hn) (hs.trans hs')
      · refine .keeps (fun e hx => ?_) (fun hx => by cases hx) (hh.trans hn) fun hr => (hs.trans hs').trans hr
        cases hx with
        | current _ hr _ he => exact hne e rfl hr he
    · have hp : (c.perform (.call name)).state = c := by
        simp only [perform, call, if_neg hl]
        rfl
      rw [hp]
      refine .keeps (fun e hx => ?_) (fun hx => by cases hx) rfl id
      cases hx with
      | current _ _ hl' _ => exact hl hl'
  | stray name =>
    show Moves c _ (c.turn name).state
    rcases c.turn_flags name with ⟨e, rfl, hr, he, hn, hs⟩ | ⟨hne, hn, hs⟩
    · exact .halts e (.stray e hr he) hn hs
    · refine .keeps (fun e hh => ?_) nofun hn fun hr => hs.trans hr
      cases hh with
      | stray _ hr he => exact hne e rfl hr he
  | hold key => exact .keeps nofun nofun rfl id

/-- a halt is one of a running console -/
theorem HaltsWith.running {a : Action} {e : CycleError} (h : c.HaltsWith a e) : c.running = true := by
  cases h <;> assumption

theorem HaltsWith.unique {a : Action} {e e' : CycleError} (h : c.HaltsWith a e) (h' : c.HaltsWith a e') : e = e' := by
  cases h <;> cases h' <;> simp_all

theorem HaltsWith.not_clears {a : Action} {e : CycleError} (h : c.HaltsWith a e) : ¬ c.Clears a := by
  cases h <;> intro h <;> cases h

theorem Bystander.not_halts {a : Action} (h : c.Bystander a) (e : CycleError) : ¬ c.HaltsWith a e := by
  intro hh
  have hr := hh.running
  cases hh <;> cases h <;> simp_all

theorem Bystander.not_clears {a : Action} (h : c.Bystander a) : ¬ c.Clears a := by
  intro hc
  cases hc <;> cases h <;> simp_all

theorem perform_halts {a : Action} {e : CycleError} (h : c.running = true → c.halted = none) (ha : c.HaltsWith a e) :
    (c.perform a).state.halted = some e ∧ (c.perform a).state.running = false := by
  cases perform_moves h a with
  | halts e' hh hn hr => exact ⟨hh.unique ha ▸ hn, hr⟩
  | clears hc => exact absurd hc ha.not_clears
  | keeps hh => exact absurd ha (hh e)

theorem perform_clears {a : Action} (h : c.running = true → c.halted = none) (ha : c.Clears a) :
    (c.perform a).state.halted = none := by
  cases perform_moves h a with
  | halts e hh => exact absurd ha hh.not_clears
  | clears _ hn => exact hn
  | keeps _ hc => exact absurd ha hc

theorem perform_keeps {a : Action} (h : c.running = true → c.halted = none) (hh : ∀ e, ¬ c.HaltsWith a e)
    (hc : ¬ c.Clears a) : (c.perform a).state.halted = c.halted := by
  cases perform_moves h a with
  | halts e ha => exact absurd ha (hh e)
  | clears ha => exact absurd ha hc
  | keeps _ _ hn => exact hn

theorem perform_takeError (c : Console) :
    c.perform .takeError = ⟨.taken c.halted, { c with halted := none }, []⟩ := rfl

/-! ## Histories -/

theorem after_snoc (c : Console) (actions : List Action) (a : Action) :
    c.after (actions ++ [a]) = ((c.after actions).perform a).state := by
  rw [after_append]
  rfl

theorem idle_perform (h : c.running = true → c.halted = none) (a : Action) :
    (c.perform a).state.running = true → (c.perform a).state.halted = none := by
  intro hr
  cases perform_moves h a with
  | halts e _ _ hs => simp [hs] at hr
  | clears _ hn => exact hn
  | keeps _ _ hn hs =>
    have hc : c.running = true := by
      cases hc : c.running with
      | false => simp [hs hc] at hr
      | true => rfl
    exact hn.trans (h hc)

theorem idle_after (h : c.running = true → c.halted = none) (actions : List Action) :
    (c.after actions).running = true → (c.after actions).halted = none := by
  induction actions generalizing c with
  | nil => exact h
  | cons a rest ih => exact ih (idle_perform h a)

theorem quiet_snoc {actions : List Action} {a : Action} :
    c.Quiet (actions ++ [a]) ↔ c.Quiet actions ∧ ¬ (c.after actions).Clears a := by
  induction actions generalizing c with
  | nil => simp [Quiet, after, run, Outcome.quiet]
  | cons b rest ih => exact (and_congr_right fun _ => ih).trans and_assoc.symm

/-- while nothing takes or discards a report, it is held, and no run is on -/
theorem quiet_after {actions : List Action} (hr : c.running = false) (hq : c.Quiet actions) :
    (c.after actions).running = false ∧ (c.after actions).halted = c.halted := by
  induction actions generalizing c with
  | nil => exact ⟨hr, rfl⟩
  | cons a rest ih =>
    have hi : c.running = true → c.halted = none := fun h => by simp [hr] at h
    cases perform_moves hi a with
    | halts e hh => simp [hh.running] at hr
    | clears hc => exact absurd hc hq.1
    | keeps _ _ hn hs =>
      obtain ⟨hr', hh⟩ := ih (hs hr) hq.2
      exact ⟨hr', hh.trans hn⟩

theorem haltedIn_snoc {actions : List Action} {a : Action} {e : CycleError} :
    c.HaltedIn (actions ++ [a]) e ↔
      (c.after actions).HaltsWith a e ∨ c.HaltedIn actions e ∧ ¬ (c.after actions).Clears a := by
  constructor
  · rintro ⟨before, b, later, ha, hb, hq⟩
    rcases List.eq_nil_or_concat' later with rfl | ⟨later, x, rfl⟩
    · obtain ⟨rfl, hab⟩ := List.append_inj' ha rfl
      cases hab
      exact .inl hb
    · rw [← List.cons_append, ← List.append_assoc] at ha
      obtain ⟨rfl, hx⟩ := List.append_inj' ha rfl
      cases hx
      obtain ⟨hq, hx⟩ := quiet_snoc.1 hq
      rw [← after_append, List.append_assoc, List.singleton_append] at hx
      exact .inr ⟨⟨before, b, later, rfl, hb, hq⟩, hx⟩
  · rintro (hb | ⟨⟨before, b, later, rfl, hb, hq⟩, ha⟩)
    · exact ⟨actions, a, [], rfl, hb, trivial⟩
    · refine ⟨before, b, later ++ [a], by rw [List.append_assoc, List.cons_append], hb, quiet_snoc.2 ⟨hq, ?_⟩⟩
      rw [← after_append, List.append_assoc, List.singleton_append]
      exact ha

theorem not_haltedIn_nil {e : CycleError} : ¬ c.HaltedIn [] e := by
  rintro ⟨before, b, later, ha, -⟩
  simp at ha

theorem halted_iff (h : c.halted = none) (actions : List Action) (e : CycleError) :
    (c.after actions).halted = some e ↔ c.HaltedIn actions e := by
  induction actions using List.reverseRecOn with
  | nil =>
    have hc : (c.after []).halted = none := h
    simp [hc, not_haltedIn_nil]
  | append_singleton actions a ih =>
    have hi := idle_after (fun _ => h) actions
    rw [after_snoc, haltedIn_snoc, ← ih]
    cases perform_moves hi a with
    | halts e' hh hn =>
      -- the report of this halt, and there was none before it
      have hnone := hi hh.running
      rw [hn, hnone]
      refine ⟨fun he => .inl (Option.some.inj he ▸ hh), fun he => ?_⟩
      rcases he with he | ⟨he, -⟩
      · rw [hh.unique he]
      · cases he
    | clears hc hn =>
      rw [hn]
      refine ⟨fun he => (by cases he), fun he => ?_⟩
      rcases he with he | ⟨-, hk⟩
      · exact absurd hc he.not_clears
      · exact absurd hc hk
    | keeps hh hk hn =>
      rw [hn]
      refine ⟨fun he => .inr ⟨he, hk⟩, fun he => ?_⟩
      rcases he with he | ⟨he, -⟩
      · exact absurd he (hh e)
      · exact he

/-- **The halt report is exact.** Take a console that was powered on, after any history.

- A running console has nothing to report.
- It holds a report exactly if a callback of the cpu task, from whichever start, ran a cycle that failed with it while a
  run was on, and no action has taken or discarded it since.
- Such a callback finds no report, ends the run and leaves its own; from there on the run stays ended and the report
  stays, as long as no action takes or discards it.
- What takes or discards a report leaves none; what neither halts nor does this leaves the report as it is, and so do
  a cycle by hand, failing or not, a tick, a stop, a change of the speed, a reload without a rom and, without a run,
  every callback.
- A report is handed out once: taking it leaves none, and one that is held later is that of a later halt. -/
theorem report_exact (pace : Pace) (random : RandomBytes) (actions : List Action) :
    let c₀ := powerOn pace random
    let c := c₀.after actions
    (c.running = true → c.halted = none) ∧
    (∀ e, c.halted = some e ↔ c₀.HaltedIn actions e) ∧
    (∀ b e, c.HaltsWith b e → c.running = true ∧ c.halted = none ∧
      ∀ later, (c.perform b).state.Quiet later →
        (c.after (b :: later)).running = false ∧ (c.after (b :: later)).halted = some e) ∧
    (∀ a, c.Clears a → (c.perform a).state.halted = none) ∧
    (∀ a, (∀ e, ¬ c.HaltsWith a e) → ¬ c.Clears a → (c.perform a).state.halted = c.halted) ∧
    (∀ a, c.Bystander a → (c.perform a).state.halted = c.halted) ∧
    c.perform .takeError = ⟨.taken c.halted, { c with halted := none }, []⟩ ∧
    (∀ later e, (c.after (.takeError :: later)).halted = some e ↔ (c.perform .takeError).state.HaltedIn later e) := by
  intro c₀ c
  have hi : c.running = true → c.halted = none := idle_after (fun _ => rfl) actions
  refine ⟨hi, halted_iff rfl actions, fun b e hb => ⟨hb.running, hi hb.running, fun later hq => ?_⟩,
    fun a ha => ?_, fun a hh hc => ?_, fun a ha => ?_, c.perform_takeError, halted_iff rfl⟩
  · obtain ⟨hn, hr⟩ := perform_halts hi hb
    obtain ⟨hr', hn'⟩ := quiet_after hr hq
    exact ⟨hr', hn'.trans hn⟩
  · exact perform_clears hi ha
  · exact perform_keeps hi hh hc
  · exact perform_keeps hi ha.not_halts ha.not_clears

/-- a return from no call -/
def bareReturn : Rom := ⟨"", [0x00, 0xEE], by decide⟩

/-- the run halts, a failing cycle by hand and a failing callback come after it, and the report is handed out once -/
theorem bareReturn_reported :
    let c := (powerOn .standard (.ofScript #[])).after [.load bareReturn true]
    let n := c.after [.call .cpu, .step, .tick, .stop, .stray .cpu]
    c.HaltsWith (.call .cpu) (.stack .empty) ∧ n.running = false ∧ n.halted = some (.stack .empty) ∧
      (n.perform .takeError).value = .taken (some (.stack .empty)) ∧ (n.perform .takeError).state.halted = none := by
  intro c n
  have hb : c.HaltsWith (.call .cpu) (.stack .empty) :=
    .current _ (by decide +kernel) (by decide +kernel) (by decide +kernel)
  have hq : (c.perform (.call .cpu)).state.Quiet [.step, .tick, .stop, .stray .cpu] :=
    ⟨fun h => (by cases h), fun h => (by cases h), fun h => (by cases h), fun h => (by cases h), trivial⟩
  obtain ⟨-, -, halts, -⟩ := report_exact .standard (.ofScript #[]) [.load bareReturn true]
  obtain ⟨-, -, held⟩ := halts _ _ hb
  obtain ⟨hr, hn⟩ := held _ hq
  refine ⟨hb, hr, hn, ?_⟩
  rw [perform_takeError, hn]
  exact ⟨rfl, rfl⟩

end ChipEight.Console
