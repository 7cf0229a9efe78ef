/-
What happens along a run: the instruction that a cycle is about to run, and each action of a run together with the
machine that finds it. A condition on a run ("no cycle in it runs this", "every poll in it finds no key") is one on all
of its moments.

Results:
- `upcoming_eq_some_iff`: the instruction that stands at the program counter, unless a key is awaited;
- `trace_append`: the moments of a run are those of its parts, the later ones from the state in between;
- `trace_keeps`: what every action of a run keeps holds at all of its moments;
- `cycle_leaves`: a cycle leaves its surroundings alone, or as the instruction leaves them that it runs;
- `cycle_sound`, `cycle_delay`: so only `FX18` and `FX15` set a countdown.
-/
import ChipEight.Proofs.Machine.Surroundings

namespace ChipEight

namespace Instruction

def setsSound : Instruction → Bool
  | .setSound _ => true
  | _ => false

def setsDelay : Instruction → Bool
  | .setDelay _ => true
  | _ => false

variable {i : Instruction}

theorem leaves_sound (h : i.setsSound = false) (r : Registers) (c : Surroundings) : (i.leaves r c).sound = c.sound := by
  cases i with
  | setSound x => cases h
  | setDelay x =>
    simp only [leaves]
    cases Registers.lookup x <;> rfl
  | _ => rfl

theorem leaves_delay (h : i.setsDelay = false) (r : Registers) (c : Surroundings) : (i.leaves r c).delay = c.delay := by
  cases i with
  | setDelay x => cases h
  | setSound x =>
    simp only [leaves]
    cases Registers.lookup x <;> rfl
  | _ => rfl

end Instruction

namespace Machine

/-! ## The next instruction -/

/-- the instruction that the next cycle runs, if it runs one -/
def upcoming (m : Machine) : Option Instruction :=
  match m.awaiting, m.fetch with
  | none, .ok w => Instruction.decode? w
  | _, _ => none

variable {m : Machine} {i : Instruction}

theorem upcoming_eq_some_iff : m.upcoming = some i ↔ m.awaiting = none ∧ i.Fits ∧ m.AtPc i.encode := by
  unfold upcoming
  constructor
  · intro h
    split at h
    · rename_i w hx hw
      obtain ⟨hi, rfl⟩ := Instruction.decode?_eq_some_iff.1 h
      exact ⟨hx, hi, fetch_eq_ok_iff.1 hw⟩
    · cases h
  · rintro ⟨hx, hi, hw⟩
    rw [hx, fetch_eq_ok_iff.2 hw]
    exact Instruction.decode?_eq_some_iff.2 ⟨hi, rfl⟩

theorem cycle_of_upcoming (h : m.upcoming = some i) :
    m.cycle =
      let o := (m.fetched i.encode).execute i
      { o with events := .log (.decoded i.encode i) :: o.events } := by
  obtain ⟨hx, hi, hw⟩ := upcoming_eq_some_iff.1 h
  exact cycle_of_instruction hx hw hi

/-- an upcoming instruction that takes effect is all that the cycle does -/
theorem cycle_of_effect {e : Effect} (h : m.upcoming = some i) (he : (m.fetched i.encode).effect i = .ok e) :
    m.cycle = ⟨.ok e.operation, e.machine.follow e.step, .log (.decoded i.encode i) :: e.events⟩ := by
  rw [cycle_of_upcoming h, execute_of_effect he]

/-- what a cycle comes to that fetches a word and goes well -/
theorem effect_of_ok {op : Operation} (hx : m.awaiting = none) (ho : m.cycle.value = .ok op) :
    ∃ i e, m.upcoming = some i ∧ (m.fetched i.encode).effect i = .ok e := by
  generalize hc : m.cycle = o at ho
  have hcourse : Course m o := hc ▸ m.cycle_course
  cases hcourse with
  | polled x hx' => rw [hx] at hx'; cases hx'
  | unfetched hx hp | unknown w hx hw hi | failed i f hx hw hi hf => cases ho
  | done i e hx hw hi he => exact ⟨i, e, upcoming_eq_some_iff.2 ⟨hx, hi, hw⟩, he⟩

/-- the register that an instruction names is there -/
theorem lookup_of_fits {x : Size} (hx : x < 16) : Registers.lookup x = .ok (.ofNat 16 x.toNat) := by
  have hi : (Fin.ofNat 16 x.toNat) = ⟨x.toNat, hx⟩ := Fin.ext (Nat.mod_eq_of_lt hx)
  rw [hi, Registers.lookup_of_lt hx]

/-- there is a word to be fetched, and the counter behind it does not wrap around -/
theorem toNat_pc_of_upcoming (h : m.upcoming = some i) : (m.pc + 2).toNat = m.pc.toNat + 2 := by
  obtain ⟨-, -, hw⟩ := upcoming_eq_some_iff.1 h
  exact hw.toNat_pc

/-! ## What a cycle leaves -/

theorem poll_surroundings (m : Machine) (x : Size) : (m.poll x).state.surroundings = m.surroundings :=
  (m.poll_within m.surroundings x).2

theorem cycle_leaves (m : Machine) :
    m.cycle.state.surroundings = m.surroundings ∨
      ∃ i, m.upcoming = some i ∧ m.cycle.state.surroundings = i.leaves m.registers m.surroundings := by
  generalize ho : m.cycle = o
  have hc : Course m o := ho ▸ m.cycle_course
  cases hc with
  | polled x hx => exact .inl (m.poll_surroundings x)
  | unfetched hx hp | unknown w hx hw hi | failed i f hx hw hi hf => exact .inl rfl
  | done i e hx hw hi he =>
    have hs : e.machine.surroundings = i.leaves m.registers m.surroundings :=
      surroundings_effect (m := m.fetched i.encode) he
    exact .inr ⟨i, upcoming_eq_some_iff.2 ⟨hx, hi, hw⟩, hs⟩

theorem cycle_beeping (m : Machine) : m.cycle.state.beeping = m.beeping := by
  have hb : m.cycle.state.surroundings.beeping = m.surroundings.beeping := by
    rcases m.cycle_leaves with hs | ⟨i, -, hs⟩
    · rw [hs]
    · rcases i.leaves_cases m.registers with ⟨d, hl⟩ | ⟨d, hl⟩ | hl | hl <;> rw [hs, hl]
  exact hb

theorem cycle_sound (h : m.upcoming.any Instruction.setsSound = false) : m.cycle.state.sound = m.sound := by
  rcases m.cycle_leaves with hs | ⟨i, hi, hs⟩
  · exact congrArg Surroundings.sound hs
  · rw [hi] at h
    exact (congrArg Surroundings.sound hs).trans (Instruction.leaves_sound h _ _)

theorem cycle_delay (h : m.upcoming.any Instruction.setsDelay = false) : m.cycle.state.delay = m.delay := by
  rcases m.cycle_leaves with hs | ⟨i, hi, hs⟩
  · exact congrArg Surroundings.delay hs
  · rw [hi] at h
    exact (congrArg Surroundings.delay hs).trans (Instruction.leaves_delay h _ _)

/-! ## Moments -/

/-- an action of a run and the machine that it finds -/
structure Moment where
  machine : Machine
  action : Action

namespace Action

def isCycle : Action → Bool
  | .cycle => true
  | _ => false

def isTick : Action → Bool
  | .tick => true
  | _ => false

theorem isCycle_iff {a : Action} : a.isCycle = true ↔ a = .cycle := by cases a <;> simp [isCycle]

end Action

/-- the moment is a cycle that runs an instruction of this kind -/
def Moment.runs (s : Moment) (kind : Instruction → Bool) : Bool := s.action.isCycle && s.machine.upcoming.any kind

/-- the moments of a run -/
def trace (m : Machine) : List Action → List Moment
  | [] => []
  | a :: rest => ⟨m, a⟩ :: trace (m.perform a).state rest

theorem after_cons (m : Machine) (a : Action) (rest : List Action) :
    m.after (a :: rest) = (m.perform a).state.after rest := rfl

theorem trace_append (m : Machine) (as bs : List Action) :
    m.trace (as ++ bs) = m.trace as ++ (m.after as).trace bs := by
  induction as generalizing m with
  | nil => rfl
  | cons a as ih => rw [List.cons_append, trace, ih, trace, List.cons_append, after_cons]

theorem map_action_trace (m : Machine) (actions : List Action) : (m.trace actions).map Moment.action = actions := by
  induction actions generalizing m with
  | nil => rfl
  | cons a rest ih => rw [trace, List.map_cons, ih]

theorem action_mem_of_trace {s : Moment} {actions : List Action} (hs : s ∈ m.trace actions) : s.action ∈ actions :=
  m.map_action_trace actions ▸ List.mem_map_of_mem hs

/-- what holds at the start and is kept by every action of a run holds all along it -/
theorem trace_keeps {P : Machine → Prop} {actions : List Action} (h : P m)
    (hk : ∀ s ∈ m.trace actions, P s.machine → P (s.machine.perform s.action).state) :
    (∀ s ∈ m.trace actions, P s.machine) ∧ P (m.after actions) := by
  induction actions generalizing m with
  | nil => exact ⟨fun s hs => (by cases hs), h⟩
  | cons a rest ih =>
    have ha : P (m.perform a).state := hk ⟨m, a⟩ List.mem_cons_self h
    obtain ⟨hs, hn⟩ := ih ha fun s hs => hk s (List.mem_cons_of_mem _ hs)
    exact ⟨List.forall_mem_cons.2 ⟨h, hs⟩, hn⟩

theorem run_events_cons (m : Machine) (a : Action) (rest : List Action) :
    (m.run (a :: rest)).events = (m.perform a).events ++ ((m.perform a).state.run rest).events := rfl

end Machine

end ChipEight
