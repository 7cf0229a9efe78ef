/-
What the report of a cycle tells the host. A cycle reports a draw exactly if it called the display, and then it called
it once; it reports a wait exactly if a key is awaited behind it; and it reports that there is nothing to show, or a
failure, if neither. The screen is what the calls of the display make of it, so a host that copies the screen behind
each cycle that reports a draw, and never else, has the current one at all times, until a reset or a load clears it.

Results:
- `effect_operation`, `effect_waits`, `effect_meets`: what each instruction reports, and what its calls of the display
  make of the screen;
- `cycle_display`, `cycle_meets`, `cycle_waits`: the same for a cycle;
- `copied_eq`: the copy of such a host;
- `reports_tell`: all of it in every state that a machine gets into.
-/
import ChipEight.Proofs.Machine.Frame
import ChipEight.Proofs.Machine.Standstill

namespace ChipEight

namespace Screen

/-- the screen after an event, which changes it only as a call of the display -/
def meet (s : Screen) : Event → Screen
  | .clear => .blank
  | .draw x y sprite => s.draw sprite x.toNat y.toNat
  | _ => s

theorem foldl_meet {events : List Event} (h : events.countP Event.onDisplay = 0) (s : Screen) :
    events.foldl meet s = s := by
  induction events with
  | nil => rfl
  | cons ev rest ih =>
    obtain ⟨hev, hrest⟩ := List.forall_mem_cons.1 (List.countP_eq_zero.1 h)
    have hs : s.meet ev = s := by
      cases ev with
      | clear | draw x y sprite => exact absurd rfl hev
      | _ => rfl
    rw [List.foldl_cons, hs]
    exact ih (List.countP_eq_zero.2 hrest)

end Screen

namespace Machine

variable {m : Machine} {i : Instruction} {e : Effect} {a : Action}

/-! ## Instructions -/

theorem effect_operation (h : m.effect i = .ok e) :
    e.operation = if i.callsDisplay then .draw else if i.awaitsKey then .wait else .plain := by
  cases i with
  | ret => exact (effect_ret h).1
  | _ =>
    simp only [effect, bind_eq_ok] at h
    grind [Instruction.callsDisplay, Instruction.awaitsKey]

theorem effect_waits (h : m.effect i = .ok e) (hx : m.awaiting = none) :
    (∃ x, e.machine.awaiting = some x) ↔ e.operation = .wait := by
  cases i with
  | awaitKey x =>
    cases h
    exact iff_of_true ⟨x, rfl⟩ rfl
  | _ =>
    have hn : e.machine.awaiting = none := by
      rcases effect_awaiting h with ha | ⟨x, hi, -⟩
      · exact ha.trans hx
      · cases hi
    have hop : e.operation ≠ .wait := by
      rw [effect_operation h]
      exact nofun
    refine iff_of_false ?_ hop
    rintro ⟨x, ha⟩
    exact absurd (hn.symm.trans ha) nofun

theorem effect_meets (h : m.effect i = .ok e) : e.machine.screen = e.events.foldl Screen.meet m.screen := by
  cases hd : i.callsDisplay with
  | false =>
    have hquiet := effect_display h
    rw [hd] at hquiet
    rw [effect_screen h hd]
    exact (Screen.foldl_meet hquiet _).symm
  | true =>
    cases i with
    | clearScreen =>
      cases h
      rfl
    | draw x y n =>
      simp only [effect, bind_eq_ok] at h
      obtain ⟨k, -, l, -, -, -, h⟩ := h
      cases h
      rfl
    | _ => cases hd

/-! ## One cycle -/

theorem cycle_display (m : Machine) :
    m.cycle.events.countP Event.onDisplay = if m.cycle.value = .ok .draw then 1 else 0 := by
  generalize ho : m.cycle = o
  have hc : Course m o := ho ▸ m.cycle_course
  cases hc with
  | polled x hx =>
    rcases m.poll_cases x with ⟨-, hp⟩ | ⟨key, -, -, hp⟩ | ⟨key, i, -, -, hp⟩ <;>
      (rw [hp]; rfl)
  | unfetched hx hp | unknown w hx hw hi | failed i f hx hw hi hf => rfl
  | done i e hx hw hi he =>
    rw [List.countP_cons_of_neg (by simp [Event.onDisplay]), effect_display he, effect_operation he]
    cases i.callsDisplay <;> cases i.awaitsKey <;> rfl

theorem cycle_meets (m : Machine) : m.cycle.state.screen = m.cycle.events.foldl Screen.meet m.screen := by
  generalize ho : m.cycle = o
  have hc : Course m o := ho ▸ m.cycle_course
  cases hc with
  | polled x hx =>
    rcases m.poll_cases x with ⟨-, hp⟩ | ⟨key, -, -, hp⟩ | ⟨key, i, -, -, hp⟩ <;>
      (rw [hp]; rfl)
  | unfetched hx hp | unknown w hx hw hi | failed i f hx hw hi hf => rfl
  | done i e hx hw hi he => exact effect_meets (m := m.fetched i.encode) he

/-- whether a key is awaited behind a cycle, by its report -/
theorem cycle_waits (h : m.Sound) : (∃ x, m.cycle.state.awaiting = some x) ↔ m.cycle.value = .ok .wait := by
  -- a cycle that does not wait leaves no key awaited, and does not report a wait
  have hnot {o : Outcome Event Machine Report} (hn : o.state.awaiting = none) (hv : o.value ≠ .ok .wait) :
      (∃ x, o.state.awaiting = some x) ↔ o.value = .ok .wait := by
    refine iff_of_false ?_ hv
    rintro ⟨x, hx⟩
    exact absurd (hn.symm.trans hx) nofun
  generalize ho : m.cycle = o
  have hc : Course m o := ho ▸ m.cycle_course
  cases hc with
  | polled x hx =>
    rcases m.poll_cases x with ⟨-, hp⟩ | ⟨key, -, hge, -⟩ | ⟨key, i, -, -, hp⟩
    · rw [hp]
      exact iff_of_true ⟨x, hx⟩ rfl
    · exact absurd (h.awaiting_lt x hx) hge
    · rw [hp]
      exact hnot rfl nofun
  | unfetched hx hp | unknown w hx hw hi | failed i f hx hw hi hf => exact hnot hx nofun
  | done i e hx hw hi he =>
    rw [Except.ok.injEq]
    exact effect_waits (m := m.fetched i.encode) he hx

/-! ## A host that copies the screen -/

/-- the screen that a host holds in the end which began with `copy` and copied the screen behind every action that
reported a draw -/
def copied (m : Machine) (copy : Screen) : List Action → Screen
  | [] => copy
  | a :: rest =>
    let o := m.perform a
    copied o.state (if .ok .draw ∈ o.value then o.state.screen else copy) rest

/-- an action that reports no draw leaves the screen as it was -/
theorem perform_screen (ha : a.continues = true) (hq : .ok .draw ∉ (m.perform a).value) :
    (m.perform a).state.screen = m.screen := by
  by_cases hc : a = .cycle
  · subst hc
    have hv : m.cycle.value ≠ .ok .draw := fun hv => hq (List.mem_singleton.2 hv.symm)
    have hnone : m.cycle.events.countP Event.onDisplay = 0 := by rw [cycle_display, if_neg hv]
    exact m.cycle_meets.trans (Screen.foldl_meet hnone _)
  · have hs : m.Stalled (m.perform a).state := stalled_perform ha fun h => absurd h hc
    exact hs.screen

theorem copied_eq {actions : List Action} (hc : ∀ a ∈ actions, a.continues = true) :
    m.copied m.screen actions = (m.after actions).screen := by
  induction actions generalizing m with
  | nil => rfl
  | cons a rest ih =>
    have hcopy : (if .ok .draw ∈ (m.perform a).value then (m.perform a).state.screen else m.screen) =
        (m.perform a).state.screen := by
      split_ifs with hd
      · rfl
      · exact (perform_screen (hc a List.mem_cons_self) hd).symm
    show (m.perform a).state.copied _ rest = _
    rw [hcopy, after_cons]
    exact ih fun b hb => hc b (List.mem_cons_of_mem a hb)

/-- **The report of a cycle tells what happened.** A cycle that reports a draw called the display once, every other one
did not call it; and what its calls make of the screen is the screen behind it. A cycle reports a wait exactly if a key
is awaited behind it. So one that reports nothing to show, or fails, has neither called the display nor left a key
awaited.

Therefore a host that has the screen and copies it behind each cycle that reports a draw, and never else, has the
screen behind every run, until a reset or a load. -/
theorem reports_tell (m : Machine) (h : m.Reached) :
    let o := m.cycle
    (o.state.screen = o.events.foldl Screen.meet m.screen ∧
      (o.value = .ok .draw ↔ o.events.countP Event.onDisplay = 1) ∧
      (o.value ≠ .ok .draw ↔ o.events.countP Event.onDisplay = 0) ∧
      (o.value = .ok .wait ↔ ∃ x, o.state.awaiting = some x) ∧
      (o.value = .ok .plain ∨ (∃ f, o.value = .error f) ↔
        o.events.countP Event.onDisplay = 0 ∧ o.state.awaiting = none)) ∧
    ∀ actions, (∀ a ∈ actions, a.continues = true) → m.copied m.screen actions = (m.after actions).screen := by
  have hwaits := cycle_waits (sound_reached h)
  have hawake : m.cycle.state.awaiting = none ↔ m.cycle.value ≠ .ok .wait := by
    rw [Option.eq_none_iff_forall_ne_some, ← not_exists, hwaits]
  refine ⟨⟨m.cycle_meets, ?_, ?_, hwaits.symm, ?_⟩, fun actions hc => copied_eq hc⟩
  · rw [cycle_display]
    split_ifs with hd <;> simp [hd]
  · rw [cycle_display]
    split_ifs with hd <;> simp [hd]
  · rw [hawake, cycle_display]
    rcases m.cycle.value with f | (_ | _ | _) <;> simp

/-- the glyph of a zero is drawn, a key is awaited, and then there is an unknown word -/
def drawnThenAwaited : Rom := ⟨"", [0xD0, 0x05, 0xF1, 0x0A, 0x80, 0x08], by decide⟩

/-- one draw, two waits, a key and a failure; the copy made behind the first cycle is still the screen -/
theorem drawnThenAwaited_copied :
    let m := (powerOn (.ofScript #[])).after [.load drawnThenAwaited]
    let actions : List Action := [.cycle, .cycle, .tick, .cycle, .press 3, .cycle, .cycle]
    (m.run actions).value.map Except.toOption = [some .draw, some .wait, some .wait, some .plain, none] ∧
      m.cycle.events.countP Event.onDisplay = 1 ∧
      m.copied m.screen actions = (m.after actions).screen ∧
      m.screen.litCount = 0 ∧ (m.after actions).screen.litCount = 14 := by
  intro m actions
  have hrun : (m.run actions).value.map Except.toOption = [some .draw, some .wait, some .wait, some .plain, none] ∧
      m.cycle.value = .ok .draw ∧ m.screen.litCount = 0 ∧ (m.after actions).screen.litCount = 14 := by decide +kernel
  obtain ⟨hvalues, hdraw, hdark, hlit⟩ := hrun
  obtain ⟨⟨-, hcalls, -⟩, hcopy⟩ := reports_tell m ⟨.ofScript #[], [.load drawnThenAwaited], rfl⟩
  exact ⟨hvalues, hcalls.1 hdraw, hcopy actions (by decide), hdark, hlit⟩

end Machine

end ChipEight
