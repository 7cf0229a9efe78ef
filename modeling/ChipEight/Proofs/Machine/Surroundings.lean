/-
The surroundings of a program: the two countdowns, the tone and the random stream. No instruction looks at them but
`FX07` at the delay and `CXNN` at the next random byte, and what an instruction does to them depends on nothing but
its registers. So a machine that is moved into other surroundings does the same there, as long as those two find the
same value.

Results:
- `Instruction.leaves_cases`: the few things that an instruction does to its surroundings;
- `effect_within`, `surroundings_effect`: an instruction in other surroundings, and what it leaves of its own;
- `cycle_within`: a cycle in other surroundings comes to the same;
- `cycle_alike`: so a relation between the surroundings that every instruction keeps is kept by cycles of machines that
  are otherwise the same.
-/
import ChipEight.Proofs.Machine.Lifecycle
import ChipEight.Proofs.Machine.Refusal

namespace ChipEight

/-! ## Outcomes -/

namespace Outcome

variable {ε σ α β : Type}

/-- two outcomes with the same value and the same events, and with states in the relation `S` -/
structure Matches (S : σ → σ → Prop) (o p : Outcome ε σ α) : Prop where
  value : o.value = p.value
  state : S o.state p.state
  events : o.events = p.events

theorem Matches.map {S : σ → σ → Prop} {o p : Outcome ε σ α} (h : Matches S o p) (f : α → β) :
    Matches S (o.map f) (p.map f) :=
  ⟨congrArg f h.value, h.state, h.events⟩

theorem Matches.andThen {S : σ → σ → Prop} {o p : Outcome ε σ α} {f : α → σ → Outcome ε σ β} (h : Matches S o p)
    (hf : ∀ a s t, S s t → Matches S (f a s) (f a t)) : Matches S (o.andThen f) (p.andThen f) := by
  have hn := hf p.value _ _ h.state
  rw [← h.value] at hn
  refine ⟨?_, ?_, ?_⟩
  · simp only [Outcome.andThen, ← h.value, hn.value]
  · simp only [Outcome.andThen, ← h.value]; exact hn.state
  · simp only [Outcome.andThen, ← h.value, h.events, hn.events]

end Outcome

/-! ## Surroundings -/

structure Surroundings where
  delay : Countdown
  sound : Countdown
  beeping : Bool
  random : RandomBytes

/-- what an instruction leaves of the surroundings, with these registers -/
def Instruction.leaves (r : Registers) (c : Surroundings) : Instruction → Surroundings
  | .setDelay x =>
    match Registers.lookup x with
    | .ok x => { c with delay := ⟨r.get x⟩ }
    | .error _ => c
  | .setSound x =>
    match Registers.lookup x with
    | .ok x => { c with sound := ⟨r.get x⟩ }
    | .error _ => c
  | .random .. => { c with random := c.random.tail }
  | _ => c

/-- an instruction sets one of the countdowns to a value of its own, takes a random byte or leaves all as it is -/
theorem Instruction.leaves_cases (i : Instruction) (r : Registers) :
    (∃ d, ∀ c : Surroundings, i.leaves r c = { c with delay := d }) ∨
    (∃ d, ∀ c : Surroundings, i.leaves r c = { c with sound := d }) ∨
    (∀ c : Surroundings, i.leaves r c = { c with random := c.random.tail }) ∨
    (∀ c : Surroundings, i.leaves r c = c) := by
  cases i with
  | setDelay x =>
    simp only [leaves]
    cases Registers.lookup x with
    | error e => exact .inr (.inr (.inr fun _ => rfl))
    | ok x => exact .inl ⟨_, fun _ => rfl⟩
  | setSound x =>
    simp only [leaves]
    cases Registers.lookup x with
    | error e => exact .inr (.inr (.inr fun _ => rfl))
    | ok x => exact .inr (.inl ⟨_, fun _ => rfl⟩)
  | random x nn => exact .inr (.inr (.inl fun _ => rfl))
  | _ => exact .inr (.inr (.inr fun _ => rfl))

namespace Machine

def surroundings (m : Machine) : Surroundings := ⟨m.delay, m.sound, m.beeping, m.random⟩

/-- the same machine in other surroundings -/
def within (m : Machine) (c : Surroundings) : Machine :=
  { m with delay := c.delay, sound := c.sound, beeping := c.beeping, random := c.random }

/-- the same machine in surroundings that `R` relates -/
structure Alike (R : Surroundings → Surroundings → Prop) (m n : Machine) : Prop where
  same : n = m.within n.surroundings
  related : R m.surroundings n.surroundings

/-- the next cycle runs `FX07` -/
def readsDelay (m : Machine) : Bool :=
  match m.awaiting, m.fetch with
  | none, .ok w =>
    match Instruction.decode w with
    | .ok (.readDelay _) => true
    | _ => false
  | _, _ => false

variable {m n : Machine} {c : Surroundings} {i : Instruction} {e : Effect}

/-! ## One instruction -/

theorem map_bind {ε α β γ : Type} (x : Except ε α) (f : α → Except ε β) (g : β → γ) :
    (x >>= f).map g = x >>= fun a => (f a).map g := by
  cases x <;> rfl

theorem effect_within (hr : c.random.head = m.random.head) (hd : c.delay = m.delay ∨ ∀ x, i ≠ .readDelay x) :
    (m.within c).effect i =
      (m.effect i).map fun e => { e with machine := e.machine.within (i.leaves m.registers c) } := by
  cases i with
  | ret =>
    have hs : (m.within c).stack = m.stack := rfl
    simp only [effect, hs]
    cases m.stack <;> rfl
  | call nnn =>
    have hs : (m.within c).stack = m.stack := rfl
    simp only [effect, map_bind, hs]
    split_ifs <;> rfl
  | random x nn =>
    have hh : (m.within c).random.head = m.random.head := hr
    simp only [effect, map_bind, hh]
    rfl
  | readDelay x =>
    obtain ⟨delay, sound, beeping, random⟩ := c
    obtain rfl : delay = m.delay := hd.resolve_right fun h => h x rfl
    simp only [effect, map_bind]
    rfl
  | setDelay x | setSound x =>
    simp only [effect, map_bind, Instruction.leaves]
    cases Registers.lookup x <;> rfl
  | _ =>
    simp only [effect, map_bind]
    rfl

/-- its own surroundings are no others -/
theorem surroundings_effect (he : m.effect i = .ok e) :
    e.machine.surroundings = i.leaves m.registers m.surroundings := by
  have h : m.effect i = (m.effect i).map fun e =>
      { e with machine := e.machine.within (i.leaves m.registers m.surroundings) } :=
    effect_within (c := m.surroundings) rfl (.inl rfl)
  rw [he] at h
  exact congrArg (·.machine.surroundings) (Except.ok.inj h)

theorem ne_readDelay (hn : m.readsDelay = false) (hx : m.awaiting = none) (hw : m.AtPc i.encode) (hi : i.Fits)
    (x : Size) : i ≠ .readDelay x := by
  rintro rfl
  have hd : Instruction.decode (Instruction.readDelay x).encode = .ok (.readDelay x) :=
    Instruction.decode_eq_ok_iff.2 ⟨hi, rfl⟩
  simp only [readsDelay, hx, fetch_eq_ok_iff.2 hw, hd] at hn
  cases hn

/-! ## One cycle -/

theorem poll_within (m : Machine) (c : Surroundings) (x : Size) :
    (m.within c).poll x = (m.poll x).change (·.within c) ∧ (m.poll x).state.surroundings = m.surroundings := by
  have hk : (m.within c).keypad = m.keypad := rfl
  rcases m.poll_cases x with ⟨h, hp⟩ | ⟨key, h, hx, hp⟩ | ⟨key, i, h, hi, hp⟩
  · rw [hp, poll_of_released (hk.trans h)]
    exact ⟨rfl, rfl⟩
  · rw [hp, poll_of_missing (hk.trans h) hx]
    exact ⟨rfl, rfl⟩
  · rw [hp, poll_of_pressed (hk.trans h) hi]
    exact ⟨rfl, rfl⟩

/-- A cycle leaves its surroundings alone, or as some instruction leaves them, and does the same to others. -/
theorem cycle_within (hr : c.random.head = m.random.head) (hd : c.delay = m.delay ∨ m.readsDelay = false) :
    ∃ f, (f = id ∨ ∃ i : Instruction, f = (i.leaves m.registers ·)) ∧
      m.cycle.state.surroundings = f m.surroundings ∧ (m.within c).cycle = m.cycle.change (·.within (f c)) := by
  generalize ho : m.cycle = o
  have hc : Course m o := ho ▸ m.cycle_course
  cases hc with
  | polled x hx =>
    have hx' : (m.within c).awaiting = some x := hx
    obtain ⟨hp, hs⟩ := m.poll_within c x
    refine ⟨id, .inl rfl, hs, ?_⟩
    simp only [cycle, hx', hp, id]
  | unfetched hx hp =>
    have hn : (m.within c).cycle = _ := cycle_of_outside hx hp
    exact ⟨id, .inl rfl, rfl, hn⟩
  | unknown w hx hw hi =>
    have hn : (m.within c).cycle = _ := cycle_of_unknown hx hw hi
    exact ⟨id, .inl rfl, rfl, hn⟩
  | failed i f hx hw hi hf =>
    have hn : (m.within c).cycle = _ := cycle_of_instruction hx hw hi
    have he : ((m.within c).fetched i.encode).effect i = ((m.fetched i.encode).effect i).map _ :=
      effect_within (m := m.fetched i.encode) hr (hd.imp_right fun hn => ne_readDelay hn hx hw hi)
    rw [hf] at he
    refine ⟨id, .inl rfl, rfl, ?_⟩
    rw [hn, execute_of_refused hi he]
    rfl
  | done i e hx hw hi he =>
    have hn : (m.within c).cycle = _ := cycle_of_instruction hx hw hi
    have he' : ((m.within c).fetched i.encode).effect i = ((m.fetched i.encode).effect i).map _ :=
      effect_within (m := m.fetched i.encode) hr (hd.imp_right fun hn => ne_readDelay hn hx hw hi)
    have hs := surroundings_effect he
    rw [he] at he'
    refine ⟨(i.leaves m.registers ·), .inr ⟨i, rfl⟩, hs, ?_⟩
    rw [hn, execute_of_effect he']
    rfl

theorem cycle_alike {R : Surroundings → Surroundings → Prop}
    (hR : ∀ (i : Instruction) r b c, R b c → R (i.leaves r b) (i.leaves r c)) (h : Alike R m n)
    (hr : n.random.head = m.random.head) (hd : n.delay = m.delay ∨ m.readsDelay = false) :
    m.cycle.Matches (Alike R) n.cycle := by
  obtain ⟨f, hf, hm, hn⟩ := cycle_within (c := n.surroundings) hr hd
  have hrel : R (f m.surroundings) (f n.surroundings) := by
    rcases hf with rfl | ⟨i, rfl⟩
    · exact h.related
    · exact hR i _ _ _ h.related
  rw [← h.same] at hn
  rw [hn]
  exact ⟨rfl, ⟨rfl, hm ▸ hrel⟩, rfl⟩

end Machine

end ChipEight
