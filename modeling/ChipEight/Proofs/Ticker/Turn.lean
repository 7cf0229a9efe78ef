/-
The steps of a ticker, and what every one of them keeps.

Results:
- `turn_of_perform`: the ways a step can go, one constructor each, with its guard, its next state and its notes;
- `runs_turn`: a thread comes with its start and goes with its exit;
- `counted_turn`: a reference comes with each thread and goes with it, so that the count tells how many there are;
- `coherent_run`: at any moment of a run, only the thread that the owner has to wait for can still be there, it is the
  newest one, and the owner holds its channel until it has dropped it;
- `count_called_le`: a thread with a bound on its calls keeps to it in whatever follows. The bound is none for a thread
  behind its last call, and one for a thread that finds its channel filled or dropped only after its next call;
- `calls_in_order`: the calls of one start all come before those of the next.

An interleaving is a list of actions, those out of turn are left out by `run`. That a look prefers a message or a
dropped channel to the end of the interval is `Thread.next`, that waiting for a thread passes only when it has ended is
`advance`. Nothing is assumed about fairness.
-/
import Mathlib.Tactic
import ChipEight.Ticker

namespace ChipEight.Ticker

variable {t t' : Ticker} {th : Thread} {a : Action} {notes : List Note} {o : Outcome Note Ticker Unit} {i j k : Nat}

/-! ## The ways a step can go -/

/-- the thread to wait for has ended, if there is one; `panicked` if it ended by a panic -/
def Joined (t : Ticker) (panicked : Bool) : Prop :=
  match t.handle with
  | none => panicked = false
  | some i => ∃ th, t.threads[i]? = some th ∧ th.phase = .ended panicked

/-- what is told of a thread that was waited for -/
def farewell (panicked : Bool) : List Note := if panicked then [.warned] else []

/-- One step: what it takes, the state it leads to and its notes. -/
inductive Turn (t : Ticker) : Action → Ticker → List Note → Prop
  | start : t.owner = .free → Turn t .start { t with owner := .sending true } []
  | stop : t.owner = .free → Turn t .stop { t with owner := .sending false } []
  | send (b : Bool) (i : Nat) : t.owner = .sending b → t.sender = some i →
      Turn t .advance { t.update i send with owner := .disconnecting b } []
  | disconnect (b : Bool) (i : Nat) : t.owner = .disconnecting b → t.sender = some i →
      Turn t .advance { t.update i disconnect with sender := none, owner := .joining b } []
  | skip (b : Bool) : t.owner = .sending b ∨ t.owner = .disconnecting b → t.sender = none →
      Turn t .advance { t with sender := none, owner := .joining b } []
  | stopped (panicked : Bool) : t.owner = .joining false → t.Joined panicked →
      Turn t .advance { t with handle := none, owner := .free } (farewell panicked ++ [.returned])
  | started (panicked : Bool) : t.owner = .joining true → t.Joined panicked →
      Turn t .advance ⟨t.threads ++ [.spawned], .free, some t.threads.length, some t.threads.length, t.count + 1⟩
        (farewell panicked ++ [.spawned t.threads.length, .returned])
  | look (i : Nat) (th : Thread) : t.threads[i]? = some th → th.phase = .waiting →
      Turn t (.look i) (t.update i fun th => { th with phase := th.next }) []
  | call (i : Nat) (th : Thread) : t.threads[i]? = some th → th.phase = .due →
      Turn t (.call i) (t.update i fun th => { th with phase := .calling }) [.called i]
  | finish (i : Nat) (how : CallEnd) (th : Thread) : t.threads[i]? = some th → th.phase = .calling →
      Turn t (.finish i how) (t.update i fun th => { th with phase := how.phase }) []
  | exit (i : Nat) (panicked : Bool) (th : Thread) : t.threads[i]? = some th → th.phase = .leaving panicked →
      Turn t (.exit i) (t.update i fun th => { th with phase := .ended panicked }).release []

/-- what follows once the thread to wait for is gone -/
theorem turn_of_joined {starting panicked : Bool} (hw : t.owner = .joining starting) (hj : t.Joined panicked) :
    let o := ({ t with handle := none }).conclude starting
    Turn t .advance o.state (farewell panicked ++ o.events) := by
  cases starting with
  | false => exact .stopped panicked hw hj
  | true => exact .started panicked hw hj

theorem turn_of_advance (h : t.advance = some o) : Turn t .advance o.state o.events := by
  unfold advance at h
  cases hw : t.owner with
  | free => simp [hw] at h
  | sending b =>
    cases hs : t.sender with
    | none => simp only [hw, hs, Option.some.injEq] at h; subst h; exact .skip b (.inl hw) hs
    | some i => simp only [hw, hs, Option.some.injEq] at h; subst h; exact .send b i hw hs
  | disconnecting b =>
    cases hs : t.sender with
    | none => simp only [hw, hs, Option.some.injEq] at h; subst h; exact .skip b (.inr hw) hs
    | some i => simp only [hw, hs, Option.some.injEq] at h; subst h; exact .disconnect b i hw hs
  | joining b =>
    simp only [hw] at h
    split at h
    · next hn =>
      have hj : t.Joined false := by simp [Joined, hn]
      have he : t = { t with handle := none } := by rw [← hn]
      rw [he, Option.some.injEq] at h
      subst h
      exact turn_of_joined hw hj
    · next i hi =>
      split at h
      · next panicked _ _ hth =>
        have hj : t.Joined panicked := by simp [Joined, hi, hth]
        have hturn := turn_of_joined hw hj
        cases panicked with
        | false => cases h; exact hturn
        | true => cases h; exact hturn
      · cases h

theorem turn_of_perform (h : t.perform a = some o) : Turn t a o.state o.events := by
  cases a with
  | start =>
    simp only [perform, Option.ite_none_right_eq_some, Option.some.injEq] at h
    obtain ⟨hw, rfl⟩ := h
    exact .start hw
  | stop =>
    simp only [perform, Option.ite_none_right_eq_some, Option.some.injEq] at h
    obtain ⟨hw, rfl⟩ := h
    exact .stop hw
  | advance => exact turn_of_advance h
  | look i =>
    simp only [perform, look] at h
    split at h
    · next hth => cases h; exact .look i _ hth rfl
    · cases h
  | call i =>
    simp only [perform, call] at h
    split at h
    · next hth => cases h; exact .call i _ hth rfl
    · cases h
  | finish i how =>
    simp only [perform, finishCall] at h
    split at h
    · next hth => cases h; exact .finish i how _ hth rfl
    · cases h
  | exit i =>
    simp only [perform, exit] at h
    split at h
    · next hth => cases h; exact .exit i _ _ hth rfl
    · cases h

/-! ## Runs -/

theorem run_cons_of_some {rest : List Action} (h : t.perform a = some o) :
    t.run (a :: rest) = o.andThen fun _ t => t.run rest := by
  simp only [run, h]

theorem run_cons_of_none {rest : List Action} (h : t.perform a = none) : t.run (a :: rest) = t.run rest := by
  simp only [run, h]

/-- what every step keeps, every run keeps -/
theorem run_keeps {P : Ticker → Prop} (hstep : ∀ t a o, P t → t.perform a = some o → P o.state) (h : P t)
    (actions : List Action) : P (t.run actions).state := by
  induction actions generalizing t with
  | nil => exact h
  | cons a rest ih =>
    cases hp : t.perform a with
    | none => rw [run_cons_of_none hp]; exact ih h
    | some o => rw [run_cons_of_some hp]; exact ih (hstep t a o h hp)

/-! ## The threads that are there -/

/-- whether thread `i` is there: started, and not ended -/
def runs (t : Ticker) (i : Nat) : Bool := t.threads[i]?.any Thread.running

theorem runs_eq (hi : t.threads[i]? = some th) : t.runs i = th.running := by
  simp [runs, hi]

theorem getElem?_update (t : Ticker) (i j : Nat) (f : Thread → Thread) :
    (t.update j f).threads[i]? = (t.threads[i]?).map fun th => if j = i then f th else th := by
  simp [update, List.getElem?_modify]

/-- a step that ends no thread -/
theorem runs_update {f : Thread → Thread} (hf : ∀ th, t.threads[j]? = some th → (f th).running = th.running)
    (i : Nat) : (t.update j f).runs i = t.runs i := by
  cases hi : t.threads[i]? with
  | none => simp [runs, getElem?_update, hi]
  | some th =>
    by_cases hji : j = i
    · subst hji
      simp [runs, getElem?_update, hi, hf th hi]
    · simp [runs, getElem?_update, hi, hji]

/-- the step that does -/
theorem runs_exit (t : Ticker) (i j : Nat) (panicked : Bool) :
    (t.update j fun th => { th with phase := .ended panicked }).release.runs i = (decide (j ≠ i) && t.runs i) := by
  show (t.update j _).runs i = _
  by_cases hji : j = i
  · subst hji
    cases hi : t.threads[j]? <;> simp [runs, getElem?_update, hi, Thread.running]
  · simp [runs, getElem?_update, hji]

theorem running_send (th : Thread) : (send th).running = th.running := by
  unfold send
  split <;> rfl

@[simp] theorem threads_release (t : Ticker) : t.release.threads = t.threads := rfl

theorem length_update (t : Ticker) (i : Nat) (f : Thread → Thread) :
    (t.update i f).threads.length = t.threads.length := by
  simp [update]

theorem Thread.running_of_phase (h : ∀ p, th.phase ≠ .ended p) : th.running = true := by
  unfold Thread.running
  split
  · next p hp => exact absurd hp (h p)
  · rfl

/-- a thread goes on to a phase before its end -/
theorem running_moved {f : Thread → Phase} (hi : t.threads[j]? = some th) (hth : th.running = true)
    (hf : ∀ p, f th ≠ .ended p) (u : Thread) (hu : t.threads[j]? = some u) :
    ({ u with phase := f u } : Thread).running = u.running := by
  obtain rfl : th = u := Option.some.inj (hi.symm.trans hu)
  rw [hth]
  exact Thread.running_of_phase hf

/-! No step of a thread but the last ends it. -/

section Moved

variable (hj : t.threads[j]? = some th)
include hj

theorem running_looked (hp : th.phase = .waiting) (u : Thread) (hu : t.threads[j]? = some u) :
    ({ u with phase := u.next } : Thread).running = u.running := by
  refine running_moved hj (Thread.running_of_phase (by simp [hp])) (fun p => ?_) u hu
  unfold Thread.next
  split <;> simp

theorem running_called (hp : th.phase = .due) (u : Thread) (hu : t.threads[j]? = some u) :
    ({ u with phase := .calling } : Thread).running = u.running :=
  running_moved (f := fun _ => .calling) hj (Thread.running_of_phase (by simp [hp])) (by simp) u hu

theorem running_finished (hp : th.phase = .calling) (how : CallEnd) (u : Thread) (hu : t.threads[j]? = some u) :
    ({ u with phase := how.phase } : Thread).running = u.running := by
  refine running_moved (f := fun _ => how.phase) hj (Thread.running_of_phase (by simp [hp])) (fun p => ?_) u hu
  cases how <;> simp [CallEnd.phase]

end Moved

/-- **A thread comes with its start and goes with its exit**, and no other step changes which threads are there. -/
theorem runs_turn (ht : t.Turn a t' notes) (i : Nat) :
    t'.runs i = true ↔ .spawned i ∈ notes ∨ (t.runs i = true ∧ a ≠ .exit i) := by
  cases ht with
  | start | stop | skip => simp [runs]
  | send b j =>
    have hsame := runs_update (t := t) (j := j) (f := send) (fun th _ => running_send th) i
    simpa [runs] using hsame
  | disconnect b j =>
    have hsame := runs_update (t := t) (j := j) (f := disconnect) (fun th _ => rfl) i
    simpa [runs] using hsame
  | stopped panicked => cases panicked <;> simp [runs, farewell]
  | started panicked =>
    have hspawned : Note.spawned i ∈ farewell panicked ++ [.spawned t.threads.length, .returned] ↔
        i = t.threads.length := by
      cases panicked <;> simp [farewell]
    rw [hspawned]
    rcases Nat.lt_trichotomy i t.threads.length with hlt | rfl | hgt
    · simp [runs, List.getElem?_append_left hlt, hlt.ne]
    · simp [runs, Thread.spawned, Thread.running]
    · simp [runs, List.getElem?_eq_none, hgt.ne', hgt.le, Nat.succ_le_of_lt hgt]
  | look j th hj hp =>
    rw [runs_update (running_looked hj hp)]
    simp
  | call j th hj hp =>
    rw [runs_update (running_called hj hp)]
    simp
  | finish j how th hj hp =>
    rw [runs_update (running_finished hj hp how)]
    simp
  | exit j panicked th hj hp =>
    rw [runs_exit]
    simp [and_comm]

/-! ## References -/

/-- how many threads are there -/
def present (t : Ticker) : Nat := t.threads.countP Thread.running

theorem present_pos_iff : 0 < t.present ↔ ∃ i, t.runs i = true := by
  simp only [present, runs, List.countP_pos_iff, List.mem_iff_getElem?, Option.any_eq_true]
  constructor
  · rintro ⟨th, ⟨i, hi⟩, hr⟩
    exact ⟨i, th, hi, hr⟩
  · rintro ⟨i, th, hi, hr⟩
    exact ⟨th, ⟨i, hi⟩, hr⟩

theorem countP_modify {α : Type} (p : α → Bool) (f : α → α) {l : List α} {x : α} (hx : l[i]? = some x) :
    (l.modify i f).countP p + (p x).toNat = l.countP p + (p (f x)).toNat := by
  induction l generalizing i with
  | nil => cases hx
  | cons y ys ih =>
    cases i with
    | zero =>
      obtain rfl : y = x := Option.some.inj hx
      cases hy : p y <;> cases hf : p (f y) <;> simp [hy, hf]
    | succ i =>
      have := ih (i := i) hx
      simp only [List.modify_succ_cons, List.countP_cons]
      omega

theorem present_update {f : Thread → Thread} (hi : t.threads[i]? = some th) :
    (t.update i f).present + th.running.toNat = t.present + (f th).running.toNat :=
  countP_modify Thread.running f hi

/-- a step that ends no thread -/
theorem present_update_same {f : Thread → Thread} (hf : ∀ th, t.threads[i]? = some th → (f th).running = th.running) :
    (t.update i f).present = t.present := by
  cases hi : t.threads[i]? with
  | none => simp [present, update, List.modify_eq_self (List.getElem?_eq_none_iff.1 hi)]
  | some th =>
    have h := present_update (f := f) hi
    rw [hf th hi] at h
    exact Nat.add_right_cancel h

/-- One reference of the owner, and one of each thread that is there. -/
def Counted (t : Ticker) : Prop := t.count = t.present + 1

theorem Counted.update {f : Thread → Thread} (h : t.Counted)
    (hf : ∀ th, t.threads[i]? = some th → (f th).running = th.running) : (t.update i f).Counted :=
  h.trans (congrArg (· + 1) (present_update_same hf).symm)

/-- A start takes a reference for its thread, an exit lets go of one, and no other step brings or ends a thread. -/
theorem counted_turn (h : t.Counted) (ht : t.Turn a t' notes) : t'.Counted := by
  cases ht with
  | start | stop | skip | stopped => exact h
  | send b j => exact h.update fun th _ => running_send th
  | disconnect b j =>
    have hkept : (t.update j disconnect).Counted := h.update fun th _ => rfl
    exact hkept
  | look j th hj hp => exact h.update (running_looked hj hp)
  | call j th hj hp => exact h.update (running_called hj hp)
  | finish j how th hj hp => exact h.update (running_finished hj hp how)
  | started panicked =>
    have hcount : t.count = t.present + 1 := h
    show t.count + 1 = (t.threads ++ [Thread.spawned]).countP Thread.running + 1
    rw [hcount, List.countP_append]
    rfl
  | exit j panicked th hj hp =>
    have hcount : t.count = t.present + 1 := h
    have hth : th.running = true := Thread.running_of_phase (by simp [hp])
    have hlost := present_update (f := fun th => { th with phase := .ended panicked }) hj
    rw [hth] at hlost
    show t.count - 1 = (t.update j _).present + 1
    rw [hcount]
    exact hlost.symm

/-! ## Owner and threads -/

/-- the thread whose channel the owner holds: the one it has to wait for, up to the drop of that channel -/
def Owner.reach : Owner → Option Nat → Option Nat
  | .joining _, _ => none
  | _, handle => handle

/-- How owner and threads stand to each other between two steps. -/
structure Coherent (t : Ticker) : Prop where
  /-- only the thread to wait for can still be there -/
  awaited : ∀ i, t.runs i = true → t.handle = some i
  /-- and it is the newest -/
  newest : ∀ i, t.handle = some i → i + 1 = t.threads.length
  /-- its channel is dropped before the wait for it, so that every return finds none -/
  sender : t.sender = t.owner.reach t.handle
  /-- the references are those of the owner and of the threads that are there -/
  counted : t.Counted

theorem coherent_idle : idle.Coherent where
  awaited i h := by simp [runs, idle] at h
  newest i h := by simp [idle] at h
  sender := rfl
  counted := rfl

/-- kept where no thread comes and the thread to wait for stays -/
theorem Coherent.of_runs (h : t.Coherent) (hc : t'.Counted) (hr : ∀ i, t'.runs i = true → t.runs i = true)
    (hh : t'.handle = t.handle) (hl : t'.threads.length = t.threads.length)
    (hs : t'.sender = t'.owner.reach t'.handle) : t'.Coherent where
  awaited i hi := hh ▸ h.awaited i (hr i hi)
  newest i hi := hl ▸ h.newest i (hh ▸ hi)
  sender := hs
  counted := hc

/-- the count tells whether a thread is there -/
theorem Coherent.alive_iff_runs (h : t.Coherent) : t.alive = true ↔ ∃ i, t.runs i = true := by
  have hc : t.count = t.present + 1 := h.counted
  rw [← present_pos_iff, alive, decide_eq_true_iff, hc]
  exact Nat.lt_add_left_iff_pos

theorem Coherent.not_runs (h : t.Coherent) {panicked : Bool} (hj : t.Joined panicked) (i : Nat) : t.runs i = false := by
  cases hr : t.runs i with
  | false => rfl
  | true =>
    rw [Joined, h.awaited i hr] at hj
    obtain ⟨th, hi, hp⟩ := hj
    simp [runs_eq hi, Thread.running, hp] at hr

theorem coherent_turn (h : t.Coherent) (ht : t.Turn a t' notes) : t'.Coherent := by
  have hruns := runs_turn ht
  have hcount := counted_turn h.counted ht
  -- only a start brings a thread
  have hkept (hn : ∀ i, .spawned i ∉ notes) (i : Nat) (hi : t'.runs i = true) : t.runs i = true :=
    ((hruns i).mp hi).elim (fun hs => absurd hs (hn i)) And.left
  cases ht with
  | start hw | stop hw => exact h.of_runs hcount (hkept (by simp)) rfl rfl (by simp [h.sender, hw, Owner.reach])
  | send b j hw =>
    exact h.of_runs hcount (hkept (by simp)) rfl (length_update ..) (by simp [update, h.sender, hw, Owner.reach])
  | disconnect => exact h.of_runs hcount (hkept (by simp)) rfl (length_update ..) rfl
  | skip => exact h.of_runs hcount (hkept (by simp)) rfl rfl rfl
  | stopped panicked hw hj =>
    refine ⟨fun i hi => ?_, by simp, by simp [h.sender, hw, Owner.reach], hcount⟩
    exact absurd hi (by simpa [runs] using h.not_runs hj i)
  | started panicked hw hj =>
    refine ⟨fun i hi => ?_, by simp, rfl, hcount⟩
    rcases (hruns i).mp hi with hs | ⟨hi, -⟩
    · cases panicked <;> simp_all [farewell]
    · exact absurd hi (by simpa using h.not_runs hj i)
  | look | call | finish | exit => exact h.of_runs hcount (hkept (by simp)) rfl (length_update ..) h.sender

theorem coherent_run (h : t.Coherent) (actions : List Action) : (t.run actions).state.Coherent :=
  run_keeps (P := Coherent) (fun _ _ _ h hp => coherent_turn h (turn_of_perform hp)) h actions

/-! ## How many calls are left -/

/-- the channel is filled or dropped -/
def Thread.told (th : Thread) : Bool := th.message || !th.connected

/-- how many calls a thread can still make, if there is a bound -/
def Thread.callsLeft (th : Thread) : Option Nat :=
  match th.phase with
  | .leaving _ | .ended _ => some 0
  | .due => if th.told then some 1 else none
  | .waiting | .calling => if th.told then some 0 else none

theorem callsLeft_of_ended (h : th.running = false) : th.callsLeft = some 0 := by
  unfold Thread.running at h
  split at h
  · next hp => simp [Thread.callsLeft, hp]
  · cases h

theorem callsLeft_of_told (h : th.told = true) : ∃ k ≤ 1, th.callsLeft = some k := by
  cases hp : th.phase <;> simp [Thread.callsLeft, hp, h]

theorem told_moved (th : Thread) (p : Phase) : Thread.told ⟨p, th.message, th.connected⟩ = th.told := rfl

theorem callsLeft_send (h : th.callsLeft = some k) : (send th).callsLeft = some k := by
  unfold send
  split
  · cases hp : th.phase <;> simp_all [Thread.callsLeft, Thread.told]
  · exact h

theorem callsLeft_disconnect (h : th.callsLeft = some k) : (disconnect th).callsLeft = some k := by
  cases hp : th.phase <;> simp_all [Thread.callsLeft, Thread.told, disconnect]

theorem callsLeft_look (hp : th.phase = .waiting) (h : th.callsLeft = some k) :
    ({ th with phase := th.next } : Thread).callsLeft = some k := by
  obtain ⟨htold, rfl⟩ : th.told = true ∧ 0 = k := by simpa [Thread.callsLeft, hp] using h
  rw [Thread.told] at htold
  simp [Thread.next, htold, Thread.callsLeft]

theorem callsLeft_call (hp : th.phase = .due) (h : th.callsLeft = some k) :
    k = 1 ∧ ({ th with phase := .calling } : Thread).callsLeft = some 0 := by
  obtain ⟨htold, rfl⟩ : th.told = true ∧ 1 = k := by simpa [Thread.callsLeft, hp] using h
  exact ⟨rfl, by simp [Thread.callsLeft, told_moved, htold]⟩

theorem callsLeft_finish (hp : th.phase = .calling) (h : th.callsLeft = some k) (how : CallEnd) :
    ({ th with phase := how.phase } : Thread).callsLeft = some k := by
  obtain ⟨htold, rfl⟩ : th.told = true ∧ 0 = k := by simpa [Thread.callsLeft, hp] using h
  cases how with
  | again => simp [CallEnd.phase, Thread.callsLeft, told_moved, htold]
  | done | panic => rfl

theorem callsLeft_exit {panicked : Bool} (hp : th.phase = .leaving panicked) (h : th.callsLeft = some k) :
    ({ th with phase := .ended panicked } : Thread).callsLeft = some k := by
  simpa [Thread.callsLeft, hp] using h

/-- a bound stays through a change of any one thread that keeps it -/
theorem callsLeft_update {f : Thread → Thread} (hi : t.threads[i]? = some th) (hk : th.callsLeft = some k)
    (hf : j = i → (f th).callsLeft = some k) :
    ∃ th', (t.update j f).threads[i]? = some th' ∧ th'.callsLeft = some k := by
  refine ⟨if j = i then f th else th, by simp [getElem?_update, hi], ?_⟩
  split
  · next hji => exact hf hji
  · exact hk

/-- **No step adds to the calls that a thread has left**, and the calls it makes are taken off. -/
theorem callsLeft_turn (ht : t.Turn a t' notes) (hi : t.threads[i]? = some th) (hk : th.callsLeft = some k) :
    ∃ th' k', t'.threads[i]? = some th' ∧ th'.callsLeft = some k' ∧ notes.count (.called i) + k' ≤ k := by
  -- the thread that takes the step is the one looked at, if they have one number
  have same {j u} (hj : t.threads[j]? = some u) (hji : j = i) : u = th := Option.some.inj (hj.symm.trans (hji ▸ hi))
  cases ht with
  | start | stop | skip => exact ⟨th, k, hi, hk, by simp⟩
  | stopped panicked => exact ⟨th, k, hi, hk, by cases panicked <;> simp [farewell]⟩
  | started panicked =>
    have hlt : i < t.threads.length := (List.getElem?_eq_some_iff.mp hi).1
    exact ⟨th, k, by simpa [List.getElem?_append_left hlt] using hi, hk, by cases panicked <;> simp [farewell]⟩
  | send b j =>
    obtain ⟨th', hi', hk'⟩ := callsLeft_update (j := j) hi hk fun _ => callsLeft_send hk
    exact ⟨th', k, hi', hk', by simp⟩
  | disconnect b j =>
    obtain ⟨th', hi', hk'⟩ := callsLeft_update (j := j) hi hk fun _ => callsLeft_disconnect hk
    exact ⟨th', k, hi', hk', by simp⟩
  | look j u hj hp =>
    obtain ⟨th', hi', hk'⟩ := callsLeft_update (f := fun th => { th with phase := th.next }) hi hk
      fun hji => callsLeft_look (same hj hji ▸ hp) hk
    exact ⟨th', k, hi', hk', by simp⟩
  | call j u hj hp =>
    rcases eq_or_ne j i with rfl | hne
    · obtain ⟨rfl, hk'⟩ := callsLeft_call (same hj rfl ▸ hp) hk
      exact ⟨{ th with phase := .calling }, 0, by simp [getElem?_update, hi], hk', by simp⟩
    · exact ⟨th, k, by simp [getElem?_update, hi, hne], hk, by simp [hne]⟩
  | finish j how u hj hp =>
    obtain ⟨th', hi', hk'⟩ := callsLeft_update (f := fun th => { th with phase := how.phase }) hi hk
      fun hji => callsLeft_finish (same hj hji ▸ hp) hk how
    exact ⟨th', k, hi', hk', by simp⟩
  | exit j panicked u hj hp =>
    obtain ⟨th', hi', hk'⟩ := callsLeft_update (f := fun th => { th with phase := .ended panicked }) hi hk
      fun hji => callsLeft_exit (same hj hji ▸ hp) hk
    exact ⟨th', k, hi', hk', by simp⟩

/-- a thread makes at most the calls it has left -/
theorem count_called_le (later : List Action) (hi : t.threads[i]? = some th) (hk : th.callsLeft = some k) :
    (t.run later).events.count (.called i) ≤ k := by
  induction later generalizing t th k with
  | nil => simp [run, Outcome.quiet]
  | cons a rest ih =>
    cases hp : t.perform a with
    | none => rw [run_cons_of_none hp]; exact ih hi hk
    | some o =>
      obtain ⟨th', k', hi', hk', hle⟩ := callsLeft_turn (turn_of_perform hp) hi hk
      calc (t.run (a :: rest)).events.count (.called i)
          = o.events.count (.called i) + (o.state.run rest).events.count (.called i) := by
            rw [run_cons_of_some hp, Outcome.andThen, List.count_append]
        _ ≤ o.events.count (.called i) + k' := Nat.add_le_add_left (ih hi' hk') _
        _ ≤ k := hle

theorem not_called (later : List Action) (hi : t.threads[i]? = some th) (hk : th.callsLeft = some 0) :
    .called i ∉ (t.run later).events :=
  List.count_eq_zero.mp (Nat.le_zero.mp (count_called_le later hi hk))

/-- behind the message no thread has more than one call left -/
theorem Coherent.sent (h : t.Coherent) {starting : Bool} (hw : t.owner = .sending starting)
    (ht : t.Turn .advance t' notes) (hlt : i < t.threads.length) :
    ∃ th k, t'.threads[i]? = some th ∧ th.callsLeft = some k ∧ k ≤ 1 := by
  have hi := List.getElem?_eq_getElem hlt
  cases hr : t.runs i with
  | false =>
    obtain ⟨th, k, hi', hk, hle⟩ := callsLeft_turn ht hi (callsLeft_of_ended ((runs_eq hi).symm.trans hr))
    exact ⟨th, k, hi', hk, by omega⟩
  | true =>
    have hs : t.sender = some i := by rw [h.sender, hw, Owner.reach, h.awaited i hr]; simp
    cases ht with
    | send b j _ hj =>
      obtain rfl : i = j := Option.some.inj (hs.symm.trans hj)
      have hsend : send t.threads[i] = { t.threads[i] with message := true } := by
        rw [send, if_pos ((runs_eq hi).symm.trans hr)]
      have htold : (send t.threads[i]).told = true := by simp [hsend, Thread.told]
      obtain ⟨k, hle, hk⟩ := callsLeft_of_told htold
      exact ⟨send t.threads[i], k, by simp [getElem?_update, hi], hk, hle⟩
    | skip _ _ hn => rw [hn] at hs; cases hs
    | disconnect _ _ hw' | stopped _ hw' | started _ hw' => rw [hw] at hw'; cases hw'

/-! ## Calls one after another -/

/-- the thread of a call -/
def Note.called? : Note → Option Nat
  | .called i => some i
  | _ => none

theorem length_turn (ht : t.Turn a t' notes) : t.threads.length ≤ t'.threads.length := by
  cases ht <;> simp [length_update]

/-- only the newest thread calls -/
theorem called_turn (h : t.Coherent) (ht : t.Turn a t' notes) :
    notes.filterMap Note.called? = [] ∨ ∃ i, i + 1 = t.threads.length ∧ notes.filterMap Note.called? = [i] := by
  cases ht with
  | call i th hi hp =>
    have hr : t.runs i = true := (runs_eq hi).trans (Thread.running_of_phase (by simp [hp]))
    exact .inr ⟨i, h.newest i (h.awaited i hr), rfl⟩
  | stopped panicked | started panicked => cases panicked <;> exact .inl rfl
  | _ => exact .inl rfl

/-- **The calls of one start all come before those of the next.** -/
theorem calls_in_order (h : t.Coherent) (actions : List Action) :
    ((t.run actions).events.filterMap Note.called?).Pairwise (· ≤ ·) ∧
      ∀ i ∈ (t.run actions).events.filterMap Note.called?, t.threads.length ≤ i + 1 := by
  induction actions generalizing t with
  | nil => simp [run, Outcome.quiet]
  | cons a rest ih =>
    cases hp : t.perform a with
    | none => rw [run_cons_of_none hp]; exact ih h
    | some o =>
      have ht := turn_of_perform hp
      obtain ⟨hsorted, hfrom⟩ := ih (coherent_turn h ht)
      have hlen := length_turn ht
      rw [run_cons_of_some hp, Outcome.andThen, List.filterMap_append]
      rcases called_turn h ht with hnone | ⟨i, hi, hone⟩
      · rw [hnone, List.nil_append]
        exact ⟨hsorted, fun j hj => hlen.trans (hfrom j hj)⟩
      · rw [hone, List.singleton_append, List.pairwise_cons]
        refine ⟨⟨fun j hj => ?_, hsorted⟩, fun j hj => ?_⟩
        · have := hfrom j hj
          omega
        · rcases List.mem_cons.mp hj with rfl | hj
          · exact hi.ge
          · exact hlen.trans (hfrom j hj)

end ChipEight.Ticker
