/-
Programs and time. The countdowns have a part in what a program does only through `FX07`. Two runs of a machine that
make the same cycles and see the same keys do the same, whatever ticks and silences there are between the cycles, as
long as the first one runs no `FX07`; so the course of such a program does not depend on the pace of the two tasks. And
the sound countdown and the tone have no part in it at all.

The ticks of the two runs are not matched with each other. A machine agrees with what ticks and silences make of it, so
each run is taken from one cycle to the next.

Results:
- `cycle_agree`, `cycle_agreeButTone`: cycles of machines that agree come to the same, and these still agree then;
- `turns_pauses`: what happens between two cycles calls the beeper at most and changes nothing that a program can tell;
- `turns_agree`, `turns_agreeButTone`: whole runs;
- `timing_through_readDelay`: both laws for every machine and all its runs.
-/
import ChipEight.Proofs.Machine.Surroundings

namespace ChipEight

/-- the beeper is called, or the log tells of such a call -/
def Event.ofTone : Event → Bool
  | .startBeep | .stopBeep | .log .toneOn | .log .toneOff => true
  | _ => false

namespace Machine

/-! ## Runs -/

/-- what is done with a machine between two loads; a cycle sees the key that is held just then -/
inductive Turn where
  | cycle (held : Keypad)
  | tick
  | silence

/-- the key that a cycle sees, nothing for the others -/
def Turn.held? : Turn → Option Keypad
  | .cycle held => some held
  | .tick | .silence => none

def holding (m : Machine) (held : Keypad) : Machine := { m with keypad := held }

/-- the machines that the cycles of a run start from, the last state, all events -/
def turns (m : Machine) : List Turn → Outcome Event Machine (List Machine)
  | [] => .quiet [] m
  | .cycle held :: rest =>
    ((m.holding held).cycle.andThen fun _ n => turns n rest).map (m.holding held :: ·)
  | .tick :: rest => m.tick.andThen fun _ n => turns n rest
  | .silence :: rest => m.silence.andThen fun _ n => turns n rest

/-- the same machine but for the countdowns and the tone; of the stream as many bytes are taken -/
def Agree : Machine → Machine → Prop := Alike fun b c => b.random = c.random

/-- the same machine but for the sound countdown and the tone -/
def AgreeButTone : Machine → Machine → Prop := Alike fun b c => b.random = c.random ∧ b.delay = c.delay

/-- cycle by cycle the same report, the same events and a state in the relation `S`; at the end such a state again, and
of all events the same ones of a kind -/
structure SameRun (S : Machine → Machine → Prop) (kind : Event → Bool)
    (o p : Outcome Event Machine (List Machine)) : Prop where
  cycles : List.Forall₂ (fun m n => m.cycle.Matches S n.cycle) o.value p.value
  state : S o.state p.state
  events : o.events.filter kind = p.events.filter kind

variable {m n p : Machine}

/-! ## One turn -/

theorem Agree.refl (m : Machine) : Agree m m := ⟨rfl, rfl⟩

theorem Agree.symm (h : Agree m n) : Agree n m where
  same := by rw [h.same]; rfl
  related := h.related.symm

theorem Agree.trans (h : Agree m n) (h' : Agree n p) : Agree m p where
  same := by rw [h'.same, h.same]; rfl
  related := h.related.trans h'.related

theorem Alike.holding {R : Surroundings → Surroundings → Prop} (h : Alike R m n) (held : Keypad) :
    Alike R (m.holding held) (n.holding held) where
  same := by rw [h.same]; rfl
  related := h.related

theorem leaves_random {b c : Surroundings} (h : b.random = c.random) (i : Instruction) (r : Registers) :
    (i.leaves r b).random = (i.leaves r c).random := by
  rcases i.leaves_cases r with ⟨d, hl⟩ | ⟨d, hl⟩ | hl | hl <;> simp only [hl, h]

theorem leaves_delay {b c : Surroundings} (h : b.delay = c.delay) (i : Instruction) (r : Registers) :
    (i.leaves r b).delay = (i.leaves r c).delay := by
  rcases i.leaves_cases r with ⟨d, hl⟩ | ⟨d, hl⟩ | hl | hl <;> simp only [hl, h]

theorem cycle_agree (h : Agree m n) (hd : m.readsDelay = false) : m.cycle.Matches Agree n.cycle := by
  have hr : n.random.head = m.random.head := congrArg RandomBytes.head h.related.symm
  exact cycle_alike (fun i r _ _ hbc => leaves_random hbc i r) h hr (.inr hd)

theorem cycle_agreeButTone (h : AgreeButTone m n) : m.cycle.Matches AgreeButTone n.cycle := by
  have hr : n.random.head = m.random.head := congrArg RandomBytes.head h.related.1.symm
  exact cycle_alike (fun i r _ _ hbc => ⟨leaves_random hbc.1 i r, leaves_delay hbc.2 i r⟩) h hr
    (.inl h.related.2.symm)

theorem tick_ofTone (m : Machine) : ∀ ev ∈ m.tick.events, ev.ofTone = true := by
  unfold tick sing silence
  split_ifs <;> simp [Outcome.change, Outcome.quiet, Event.ofTone]

theorem silence_ofTone (m : Machine) : ∀ ev ∈ m.silence.events, ev.ofTone = true := by
  unfold silence
  split_ifs <;> simp [Outcome.quiet, Event.ofTone]

theorem onDisplay_of_ofTone {ev : Event} (h : ev.ofTone = true) : ev.onDisplay = false := by
  cases ev with
  | draw _ _ _ | clear => cases h
  | _ => rfl

theorem agree_tick (m : Machine) : Agree m m.tick.state where
  same := by rw [tick_state]; rfl
  related := by rw [tick_state]; rfl

theorem agree_silence (m : Machine) : Agree m m.silence.state where
  same := by rw [silence_state]; rfl
  related := by rw [silence_state]; rfl

theorem AgreeButTone.tick (h : AgreeButTone m n) : AgreeButTone m.tick.state n.tick.state where
  same := by rw [tick_state, tick_state, h.same]; rfl
  related := by
    rw [tick_state, tick_state]
    exact ⟨h.related.1, congrArg Countdown.tick h.related.2⟩

theorem AgreeButTone.silence (h : AgreeButTone m n) : AgreeButTone m.silence.state n.silence.state where
  same := by rw [silence_state, silence_state, h.same]; rfl
  related := by
    rw [silence_state, silence_state]
    exact h.related

/-! ## Whole runs -/

theorem held?_eq_some {t : Turn} {held : Keypad} : t.held? = some held ↔ t = .cycle held := by
  cases t <;> simp [Turn.held?]

theorem turns_pause (m : Machine) {t : Turn} (ht : t.held? = none) (rest : List Turn) :
    ∃ n events, Agree m n ∧ (∀ ev ∈ events, ev.ofTone = true) ∧
      m.turns (t :: rest) = { n.turns rest with events := events ++ (n.turns rest).events } := by
  cases t with
  | cycle held => cases ht
  | tick => exact ⟨m.tick.state, m.tick.events, m.agree_tick, m.tick_ofTone, rfl⟩
  | silence => exact ⟨m.silence.state, m.silence.events, m.agree_silence, m.silence_ofTone, rfl⟩

theorem turns_pauses (m : Machine) {pauses : List Turn} (hp : ∀ t ∈ pauses, t.held? = none) (rest : List Turn) :
    ∃ n events, Agree m n ∧ (∀ ev ∈ events, ev.ofTone = true) ∧
      m.turns (pauses ++ rest) = { n.turns rest with events := events ++ (n.turns rest).events } := by
  induction pauses generalizing m with
  | nil => exact ⟨m, [], .refl m, by simp, rfl⟩
  | cons t pauses ih =>
    obtain ⟨n, events, ha, he, ho⟩ := m.turns_pause (hp t List.mem_cons_self) (pauses ++ rest)
    obtain ⟨n', events', ha', he', ho'⟩ := ih n fun t ht => hp t (List.mem_cons_of_mem _ ht)
    refine ⟨n', events ++ events', ha.trans ha', fun ev hev => ?_, ?_⟩
    · exact (List.mem_append.1 hev).elim (he ev) (he' ev)
    · rw [List.cons_append, ho, ho', List.append_assoc]

/-- events of no such kind in front of both -/
theorem SameRun.behind {S : Machine → Machine → Prop} {kind : Event → Bool} {o p : Outcome Event Machine (List Machine)}
    {before before' : List Event} (hb : ∀ ev ∈ before, kind ev = false) (hb' : ∀ ev ∈ before', kind ev = false)
    (h : SameRun S kind o p) :
    SameRun S kind { o with events := before ++ o.events } { p with events := before' ++ p.events } where
  cycles := h.cycles
  state := h.state
  events := by
    have hn : before.filter kind = [] := List.filter_eq_nil_iff.2 fun ev hev => by simp [hb ev hev]
    have hn' : before'.filter kind = [] := List.filter_eq_nil_iff.2 fun ev hev => by simp [hb' ev hev]
    rw [List.filter_append, List.filter_append, hn, hn', h.events]

/-- one more cycle in front of both -/
theorem SameRun.cycle {S : Machine → Machine → Prop} {kind : Event → Bool} {held : Keypad} {as bs : List Turn}
    (hc : (m.holding held).cycle.Matches S (n.holding held).cycle)
    (h : SameRun S kind ((m.holding held).cycle.state.turns as) ((n.holding held).cycle.state.turns bs)) :
    SameRun S kind (m.turns (.cycle held :: as)) (n.turns (.cycle held :: bs)) where
  cycles := .cons hc h.cycles
  state := h.state
  events := by simp only [turns, Outcome.map, Outcome.andThen, List.filter_append, hc.events, h.events]

theorem turns_agree {as bs : List Turn} (h : Agree m n)
    (hk : as.filterMap Turn.held? = bs.filterMap Turn.held?)
    (hd : ∀ a ∈ (m.turns as).value, a.readsDelay = false) :
    SameRun Agree Event.onDisplay (m.turns as) (n.turns bs) := by
  have hnone : ∀ ev ∈ ([] : List Event), ev.onDisplay = false := by simp
  induction as generalizing m n bs with
  | nil =>
    have hp : ∀ t ∈ bs, t.held? = none := List.filterMap_eq_nil_iff.1 hk.symm
    obtain ⟨n', events, ha, he, ho⟩ := n.turns_pauses hp []
    rw [List.append_nil] at ho
    have hs : SameRun Agree Event.onDisplay (m.turns []) (n'.turns []) := ⟨.nil, h.trans ha, rfl⟩
    rw [ho]
    exact hs.behind hnone fun ev hev => onDisplay_of_ofTone (he ev hev)
  | cons t as ih =>
    cases ht : t.held? with
    | none =>
      obtain ⟨m', events, ha, he, ho⟩ := m.turns_pause ht as
      rw [ho] at hd ⊢
      rw [List.filterMap_cons_none ht] at hk
      exact (ih (ha.symm.trans h) hk hd).behind (fun ev hev => onDisplay_of_ofTone (he ev hev)) hnone
    | some held =>
      -- the other run comes to its cycle behind some pauses
      obtain rfl := held?_eq_some.1 ht
      rw [List.filterMap_cons_some ht] at hk
      obtain ⟨pauses, t', bs', rfl, hp, ht', hk'⟩ := List.filterMap_eq_cons_iff.1 hk.symm
      obtain rfl := held?_eq_some.1 ht'
      obtain ⟨n', events, ha, he, ho⟩ := n.turns_pauses hp (.cycle held :: bs')
      have hc := cycle_agree ((h.trans ha).holding held) (hd _ List.mem_cons_self)
      have hs := SameRun.cycle hc (ih hc.state hk'.symm fun a hm => hd a (List.mem_cons_of_mem _ hm))
      rw [ho]
      exact hs.behind hnone fun ev hev => onDisplay_of_ofTone (he ev hev)

theorem turns_agreeButTone (h : AgreeButTone m n) (ts : List Turn) :
    SameRun AgreeButTone (fun ev => !ev.ofTone) (m.turns ts) (n.turns ts) := by
  have hk {ev : Event} (hev : ev.ofTone = true) : (!ev.ofTone) = false := by rw [hev]; rfl
  induction ts generalizing m n with
  | nil => exact ⟨.nil, h, rfl⟩
  | cons t ts ih =>
    cases t with
    | cycle held =>
      have hc := cycle_agreeButTone (h.holding held)
      exact .cycle hc (ih hc.state)
    | tick => exact (ih h.tick).behind (fun ev he => hk (m.tick_ofTone ev he)) fun ev he => hk (n.tick_ofTone ev he)
    | silence =>
      exact (ih h.silence).behind (fun ev he => hk (m.silence_ofTone ev he)) fun ev he => hk (n.silence_ofTone ev he)

/-- **Time has a part in a program only through `FX07`.** From every machine, two runs whose cycles see the same keys
come to the same cycle by cycle, with the same calls of the display, however many ticks and silences each of them has
in between, if the first one runs no `FX07`. And if two machines differ only in the sound countdown and the tone, any
turns come to the same for both, but for the calls of the beeper. -/
theorem timing_through_readDelay (m : Machine) :
    (∀ as bs : List Turn, as.filterMap Turn.held? = bs.filterMap Turn.held? →
      (∀ a ∈ (m.turns as).value, a.readsDelay = false) →
        SameRun Agree Event.onDisplay (m.turns as) (m.turns bs)) ∧
    ∀ n, AgreeButTone m n → ∀ ts : List Turn,
      SameRun AgreeButTone (fun ev => !ev.ofTone) (m.turns ts) (n.turns ts) :=
  ⟨fun _ _ hk hd => turns_agree (.refl m) hk hd, fun _ h ts => turns_agreeButTone h ts⟩

/-- both countdowns become five, a glyph is drawn at a random column, and a key is awaited -/
def timedGlyph : Rom :=
  ⟨"", [0x60, 0x05, 0xF0, 0x15, 0xF0, 0x18, 0xC1, 0xFF, 0xD1, 0x05, 0xF2, 0x0A], by decide⟩

/-- without a tick, and with ticks all over; and with the tone on from the start -/
theorem timedGlyph_same :
    let m := (powerOn (.ofScript #[7])).after [.load timedGlyph]
    let n := { m with sound := ⟨9⟩, beeping := true }
    let as : List Turn := List.replicate 6 (.cycle none) ++ [.cycle (some 4)]
    let bs : List Turn := [.tick, .cycle none, .cycle none, .tick, .tick, .cycle none, .tick, .cycle none, .silence,
      .cycle none, .tick, .cycle none, .tick, .cycle (some 4), .tick]
    SameRun Agree Event.onDisplay (m.turns as) (m.turns bs) ∧
      (m.turns as).state.delay ≠ (m.turns bs).state.delay ∧
      SameRun AgreeButTone (fun ev => !ev.ofTone) (m.turns bs) (n.turns bs) := by
  intro m n as bs
  have h := timing_through_readDelay m
  have hd : ∀ a ∈ (m.turns as).value, a.readsDelay = false := by decide +kernel
  exact ⟨h.1 as bs (by decide) hd, by decide +kernel, h.2 n ⟨rfl, rfl, rfl⟩ bs⟩

end Machine

end ChipEight
