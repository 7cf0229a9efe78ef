/-
The tone and the beeper. Whatever a host does with a machine, the beeper is called exactly if the tone changes, and
then once: it is started when the tone goes on and stopped when it goes off. No cycle has a part in it, only ticks,
silences, resets and loads.

Results:
- `beeps_silence`, `beeps_tick`, `beeps_cycle`: the calls of each operation;
- `beeps_perform`: those of every action, by what it does to the tone.
-/
import ChipEight.Proofs.Machine.FreshStart
import ChipEight.Proofs.Machine.Trace

namespace ChipEight

/-- the calls of the beeper among some events -/
def beeps (events : List Event) : List Event := events.filter Event.onBeeper

/-- the call that takes a tone from one state to the other, none if it stays as it is -/
def toneCall (was is : Bool) : List Event :=
  match was, is with
  | false, true => [.startBeep]
  | true, false => [.stopBeep]
  | _, _ => []

theorem toneCall_self (on : Bool) : toneCall on on = [] := by cases on <;> rfl

theorem beeps_append (es fs : List Event) : beeps (es ++ fs) = beeps es ++ beeps fs := List.filter_append ..

theorem beeps_eq_nil {es : List Event} (h : ∀ ev ∈ es, ev.onBeeper = false) : beeps es = [] :=
  List.filter_eq_nil_iff.2 fun ev hev => by simp [h ev hev]

/-- a tone is started only by the call that starts one -/
theorem startBeep_mem_toneCall {was is : Bool} (h : .startBeep ∈ toneCall was is) : was = false ∧ is = true := by
  cases was <;> cases is <;> simp [toneCall] at h ⊢

namespace Machine

variable {m : Machine}

/-! ## Operations -/

theorem beeps_silence (m : Machine) : beeps m.silence.events = toneCall m.beeping false := by
  rw [silence_eq]
  cases m.beeping <;> rfl

theorem beeps_tick (m : Machine) : beeps m.tick.events = toneCall m.beeping m.sound.active := by
  unfold tick sing silence
  cases hs : m.sound.active <;> cases hb : m.beeping <;> rfl

theorem effect_events {i : Instruction} {e : Effect} (h : m.effect i = .ok e) :
    ∀ ev ∈ e.events, ev.onBeeper = false := by
  cases i <;> simp only [effect, bind_eq_ok] at h <;> grind [Event.onBeeper]

theorem poll_events (m : Machine) (x : Size) : ∀ ev ∈ (m.poll x).events, ev.onBeeper = false := by
  rcases m.poll_cases x with ⟨-, hp⟩ | ⟨key, -, -, hp⟩ | ⟨key, i, -, -, hp⟩ <;>
    simp [hp, Outcome.quiet, Event.onBeeper]

theorem cycle_events (m : Machine) : ∀ ev ∈ m.cycle.events, ev.onBeeper = false := by
  generalize ho : m.cycle = o
  have hc : Course m o := ho ▸ m.cycle_course
  cases hc with
  | polled x hx => exact m.poll_events x
  | unfetched hx hp | unknown w hx hw hi => simp [Outcome.quiet]
  | failed i f hx hw hi hf => simp [Event.onBeeper]
  | done i e hx hw hi he =>
    intro ev hev
    rcases List.mem_cons.1 hev with rfl | hev
    · rfl
    · exact effect_events he ev hev

theorem beeps_cycle (m : Machine) : beeps m.cycle.events = [] := beeps_eq_nil m.cycle_events

/-! ## Actions -/

theorem beeps_perform (m : Machine) (a : Action) :
    beeps (m.perform a).events = toneCall m.beeping (m.perform a).state.beeping := by
  cases a with
  | cycle =>
    show beeps m.cycle.events = toneCall m.beeping m.cycle.state.beeping
    rw [beeps_cycle, cycle_beeping, toneCall_self]
  | tick =>
    show beeps m.tick.events = toneCall m.beeping m.tick.state.beeping
    rw [beeps_tick, tick_state]
  | silence =>
    show beeps m.silence.events = toneCall m.beeping m.silence.state.beeping
    rw [beeps_silence, silence_state]
  | reset =>
    show beeps m.reset.events = toneCall m.beeping m.reset.state.beeping
    rw [← load_empty, load_events, load_state]
    cases m.beeping <;> rfl
  | load rom =>
    show beeps (m.load rom).events = toneCall m.beeping (m.load rom).state.beeping
    rw [load_events, load_state]
    cases m.beeping <;> rfl
  | press key =>
    simp only [perform, press]
    cases Keypad.press key <;> exact (toneCall_self m.beeping).symm
  | release _ | clearKeys | setRandom _ => exact (toneCall_self m.beeping).symm

end Machine

end ChipEight
