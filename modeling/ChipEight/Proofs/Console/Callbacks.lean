/-
Callbacks against driving by hand. While a console runs, a call of a callback does what its owner would do by hand: a
cycle for the cpu task, a tick for the timer task, whichever start the callback is from. The first cycle that fails
ends this: its callback leaves the report, clears the flag and breaks off. With the flag clear a callback does nothing
but break off, and one of the timer task ends the tone.

In between the player may hold another key; both drives see it at the same time.

Results:
- `beat_of_stopped`, `beat_of_handled`, `beat_of_failed`: a call with the flag clear, one that goes well, one that
  fails;
- `beats_of_stopped`: with the flag clear every call breaks off and none changes more than the tone;
- `beats_follow_hand`: the whole simulation, for every order of calls in every state that a console gets into.
-/
import ChipEight.Proofs.Console.Reached
import ChipEight.Proofs.Machine.Safety

namespace ChipEight

namespace Console

/-! ## Both drives -/

/-- a callback is called, or the player does something -/
inductive Beat where
  | call (name : TaskName) (which : Callback)
  | hold (key : Option (Fin 16))

namespace Beat

/-- what the owner does in place of a callback -/
def byHand : Beat → Action
  | .call .cpu _ => .step
  | .call .timer _ => .tick
  | .hold key => .hold key

/-- the reply of a callback that wants this -/
def reply (flow : Flow) : Beat → Reply
  | .call .. => .flow flow
  | .hold _ => .nothing

def ofTimer : Beat → Bool
  | .call .timer _ => true
  | _ => false

end Beat

def beat (c : Console) : Beat → Outcome Event Console Reply
  | .call name which => (c.called name which).map .flow
  | .hold key => c.perform (.hold key)

/-- the callbacks in turn -/
def beats (c : Console) : List Beat → Outcome Event Console (List Reply)
  | [] => .quiet [] c
  | b :: rest => (c.beat b).andThen fun reply c => (beats c rest).map (reply :: ·)

/-- the same by hand -/
def byHand (c : Console) (bs : List Beat) : Outcome Event Console (List Reply) := c.run (bs.map Beat.byHand)

/-- no cycle failed -/
def Clean (replies : List Reply) : Prop := ∀ f, Reply.report (.error f) ∉ replies

/-- what is left of a callback with the flag clear: it is gone, and one of the timer task ends the tone -/
def idle (c : Console) : Beat → Console
  | .call .cpu which => c.dropCallback .cpu which
  | .call .timer which => { c with machine := { c.machine with beeping := false } }.dropCallback .timer which
  | .hold key => { c with machine := { c.machine with keypad := key.map fun k => .ofNat k } }

/-- the end of a tone that is on, at the first call of the timer task -/
def toneEnd (c : Console) (bs : List Beat) : List Event :=
  if c.machine.beeping && bs.any Beat.ofTimer then [.log .toneOff, .stopBeep] else []

/-- a failed cycle has halted the run -/
def haltedBy (c : Console) (e : CycleError) (which : Callback) : Console :=
  { c with halted := some e, running := false }.dropCallback .cpu which

/-- what callbacks come to from a running console on -/
inductive Follows (c : Console) (bs : List Beat) : Outcome Event Console (List Reply) → Prop where
  /-- no cycle fails, and all is as by hand -/
  | on (replies : List Reply) (n : Console) (events : List Event) (ho : c.byHand bs = ⟨replies, n, events⟩)
    (hc : Clean replies) : Follows c bs ⟨bs.map (·.reply .proceed), n, events⟩
  /-- all is as by hand up to the first cycle that fails, and idle from there on -/
  | halted (before : List Beat) (which : Callback) (later : List Beat) (replies : List Reply) (e : CycleError)
    (n : Console) (events : List Event) (hb : bs = before ++ .call .cpu which :: later)
    (ho : c.byHand (before ++ [.call .cpu which]) = ⟨replies ++ [.report (.error (.error e))], n, events⟩)
    (hc : Clean replies) :
    Follows c bs ⟨before.map (·.reply .proceed) ++ .flow .finish :: later.map (·.reply .finish),
      later.foldl idle (n.haltedBy e which),
      events ++ [.log (.halting e)] ++ (n.haltedBy e which).toneEnd later⟩

/-! ## One call -/

variable {c : Console}

theorem beat_of_stopped (h : c.running = false) (b : Beat) :
    c.beat b = ⟨b.reply .finish, c.idle b, c.toneEnd [b]⟩ := by
  cases b with
  | call name which =>
    cases name with
    | cpu =>
      have ht : c.turn .cpu = .quiet .finish c := by simp only [turn, cpuTurn, h]; rfl
      have he : c.toneEnd [.call .cpu which] = [] := by simp [toneEnd, Beat.ofTimer]
      rw [beat, called, ht, he]
      rfl
    | timer =>
      have ht : c.turn .timer = ⟨.finish, { c with machine := { c.machine with beeping := false } },
          if c.machine.beeping then [.log .toneOff, .stopBeep] else []⟩ := by
        simp only [turn, timerTurn, h, onMachine, Machine.silence_eq]; rfl
      have he : c.toneEnd [.call .timer which] = if c.machine.beeping then [.log .toneOff, .stopBeep] else [] := by
        simp [toneEnd, Beat.ofTimer]
      rw [beat, called, ht, he]
      rfl
  | hold key =>
    have he : c.toneEnd [.hold key] = [] := by simp [toneEnd, Beat.ofTimer]
    rw [he]
    rfl

/-- a cycle by hand that does not fail is a turn of the cpu task -/
theorem turn_cpu_of_ok (h : c.running = true) {op : Operation} (ho : c.machine.cycle.value = .ok op) :
    c.turn .cpu = ⟨.proceed, c.step.state, c.step.events⟩ := by
  have hv : c.step.value = .ok op := ho
  simp only [turn, cpuTurn, h, if_true, hv]

theorem beat_of_handled (h : c.running = true) (b : Beat)
    (hf : ∀ f, (c.perform b.byHand).value ≠ .report (.error f)) :
    c.beat b = ⟨b.reply .proceed, (c.perform b.byHand).state, (c.perform b.byHand).events⟩ := by
  cases b with
  | call name which =>
    cases name with
    | cpu =>
      cases hv : c.machine.cycle.value with
      | error f => exact absurd (congrArg Reply.report hv) (hf f)
      | ok op =>
        rw [beat, called, turn_cpu_of_ok h hv]
        rfl
    | timer =>
      have ht : c.turn .timer = c.tick.map fun _ => .proceed := by simp only [turn, timerTurn, h, if_true]
      rw [beat, called, ht]
      rfl
  | hold key => rfl

theorem beat_of_failed (h : c.running = true) (which : Callback) {e : CycleError}
    (he : c.machine.cycle.value = .error (.error e)) :
    c.beat (.call .cpu which) =
      ⟨.flow .finish, c.step.state.haltedBy e which, c.step.events ++ [.log (.halting e)]⟩ := by
  have hv : c.step.value = .error (.error e) := he
  have ht : c.turn .cpu = ⟨.finish, { c.step.state with halted := some e, running := false },
      c.step.events ++ [.log (.halting e)]⟩ := by
    simp only [turn, cpuTurn, h, if_true, hv]
  rw [beat, called, ht]
  rfl

/-! ## Runs -/

theorem toneEnd_cons (c : Console) (b : Beat) (bs : List Beat) :
    c.toneEnd (b :: bs) = c.toneEnd [b] ++ (c.idle b).toneEnd bs := by
  cases b with
  | call name which =>
    cases name <;> cases hb : c.machine.beeping <;> simp [toneEnd, idle, Beat.ofTimer, hb, dropCallback]
  | hold key => simp [toneEnd, idle, Beat.ofTimer]

theorem idle_running (c : Console) (b : Beat) : (c.idle b).running = c.running := by
  cases b with
  | call name which => cases name <;> rfl
  | hold key => rfl

theorem haltedBy_running (c : Console) (e : CycleError) (which : Callback) :
    (c.haltedBy e which).running = false := rfl

theorem beats_of_stopped (h : c.running = false) (bs : List Beat) :
    c.beats bs = ⟨bs.map (·.reply .finish), bs.foldl idle c, c.toneEnd bs⟩ := by
  induction bs generalizing c with
  | nil => simp [beats, Outcome.quiet, toneEnd]
  | cons b bs ih =>
    have hi : (c.idle b).running = false := (c.idle_running b).trans h
    rw [toneEnd_cons, beats, beat_of_stopped h b]
    simp only [Outcome.andThen, Outcome.map, ih hi, List.map_cons, List.foldl_cons]

theorem byHand_cons (c : Console) (b : Beat) (bs : List Beat) :
    c.byHand (b :: bs) =
      (c.perform b.byHand).andThen fun reply n => (n.byHand bs).map (reply :: ·) := rfl

theorem perform_byHand_running (c : Console) (b : Beat) : (c.perform b.byHand).state.running = c.running := by
  cases b with
  | call name which => cases name <;> rfl
  | hold key => rfl

theorem clean_nil : Clean [] := fun _ => List.not_mem_nil

theorem Clean.cons {r : Reply} {replies : List Reply} (hr : ∀ f, r ≠ .report (.error f)) (h : Clean replies) :
    Clean (r :: replies) := by
  intro f hf
  rcases List.mem_cons.1 hf with hf | hf
  · exact hr f hf.symm
  · exact h f hf

/-- one more call in front that goes well -/
theorem Follows.cons {b : Beat} {bs : List Beat} {o : Outcome Event Console (List Reply)}
    (hb : ∀ f, (c.perform b.byHand).value ≠ .report (.error f)) (h : Follows (c.perform b.byHand).state bs o) :
    Follows c (b :: bs) ⟨b.reply .proceed :: o.value, o.state, (c.perform b.byHand).events ++ o.events⟩ := by
  cases h with
  | on replies n events ho hc =>
    refine .on _ n _ ?_ (hc.cons hb)
    rw [byHand_cons, Outcome.andThen, ho]; rfl
  | halted before which later replies e n events hbs ho hc =>
    have ho' : c.byHand (b :: before ++ [.call .cpu which]) =
        ⟨((c.perform b.byHand).value :: replies) ++ [.report (.error (.error e))], n,
          (c.perform b.byHand).events ++ events⟩ := by
      rw [List.cons_append, byHand_cons, Outcome.andThen, ho]; rfl
    have hbs' : b :: bs = (b :: before) ++ .call .cpu which :: later := by rw [hbs, List.cons_append]
    have := Follows.halted (b :: before) which later _ e n _ hbs' ho' (hc.cons hb)
    simpa only [List.map_cons, List.cons_append, List.append_assoc] using this

/-- the cycle of the very next call fails -/
theorem Follows.of_failed (h : c.running = true) (which : Callback) (later : List Beat) {e : CycleError}
    (he : c.machine.cycle.value = .error (.error e)) :
    Follows c (.call .cpu which :: later) (c.beats (.call .cpu which :: later)) := by
  have ho : c.byHand ([] ++ [.call .cpu which]) =
      ⟨[] ++ [.report (.error (.error e))], c.step.state, c.step.events⟩ := by
    have hv : c.step.value = .error (.error e) := he
    have hp : c.perform (Beat.call .cpu which).byHand =
        ⟨.report (.error (.error e)), c.step.state, c.step.events⟩ := by
      rw [← hv]; rfl
    rw [List.nil_append, byHand_cons, hp]
    simp only [Outcome.andThen, Outcome.map, byHand, List.map_nil, run, Outcome.quiet, List.append_nil,
      List.nil_append]
  have hs := haltedBy_running c.step.state e which
  have := Follows.halted [] which later [] e _ _ rfl ho clean_nil
  rw [beats, beat_of_failed h which he]
  simp only [Outcome.andThen, Outcome.map, beats_of_stopped hs]
  exact this

theorem follows_beats (hm : c.machine.Reached) (h : c.running = true) (bs : List Beat) :
    Follows c bs (c.beats bs) := by
  -- every call that goes well leaves a running console with a reached machine
  induction bs generalizing c with
  | nil => exact .on [] c [] rfl clean_nil
  | cons b bs ih =>
    by_cases hb : ∀ f, (c.perform b.byHand).value ≠ .report (.error f)
    · have hn := (c.perform_byHand_running b).trans h
      rw [beats, beat_of_handled h b hb]
      exact (ih (perform_reached hm b.byHand) hn).cons hb
    · obtain ⟨f, hf⟩ := not_forall_not.1 hb
      cases b with
      | hold key => cases hf
      | call name which =>
        cases name with
        | timer => cases hf
        | cpu =>
          have hv : c.machine.cycle.value = .error f := Reply.report.inj hf
          cases f with
          | contract => exact absurd hv (Machine.sound_reached hm).cycle_ne_contract
          | error e => exact .of_failed h which bs hv

/-- **Callbacks drive a console as its owner would by hand.** In every state that a running console gets into, calls
of callbacks in any order, from whichever start, come to what the same cycles and ticks by hand come to, up to and
including the first cycle that fails; that one leaves its cause as the report and clears the flag. From then on, and
whenever the flag is clear, every call breaks off and changes nothing but a tone that is on, which a call of the timer
task ends. -/
theorem beats_follow_hand (c : Console) (h : c.Reached) (bs : List Beat) :
    (c.running = true → Follows c bs (c.beats bs)) ∧
      (c.running = false → c.beats bs = ⟨bs.map (·.reply .finish), bs.foldl idle c, c.toneEnd bs⟩) :=
  ⟨fun hr => follows_beats h.machine hr bs, fun hr => beats_of_stopped hr bs⟩

/-- a tone of five ticks, then a return from no call -/
def cutTone : Rom := ⟨"", [0x60, 0x05, 0xF0, 0x18, 0x00, 0xEE], by decide⟩

/-- the tone is on when the second run halts, and a callback of the first one ends it -/
theorem cutTone_follows :
    let c := (powerOn .standard (.ofScript #[])).after [.load cutTone true, .stop, .start]
    let bs : List Beat := [.call .cpu .current, .call .cpu .leftOver, .call .timer .current, .call .cpu .current,
      .call .timer .leftOver]
    c.Reached ∧ c.running = true ∧ Follows c bs (c.beats bs) ∧
      (c.beats (bs.take 4)).state.machine.beeping = true ∧ (c.beats bs).state.machine.beeping = false := by
  intro c bs
  have h : c.Reached := (Reached.powerOn ..).after _
  have hr : c.running = true := by decide +kernel
  exact ⟨h, hr, (beats_follow_hand c h bs).1 hr, by decide +kernel, by decide +kernel⟩

end Console

end ChipEight
