/-
What a ticker keeps to, however its owner and its threads take turns and however its callbacks end.

Results:
- `Coherent.alive_after`: the count of references changes with the threads, so alive holds exactly from a start to the
  end of its thread;
- `Coherent.returned`: behind a return the threads before it are gone, and call no more;
- `protocol_kept`: at most one thread at a time, alive exactly while it is there, no call of a callback once the stop,
  the start or the drop that ended it has returned, at most one after the message was sent, none after it broke off or
  panicked; and the return does come.
-/
import ChipEight.Proofs.Ticker.Return

namespace ChipEight.Ticker

variable {t t' : Ticker} {th : Thread} {a : Action} {notes : List Note} {o : Outcome Note Ticker Unit} {i j k : Nat}

/-- What holds at a moment of a ticker, and of any step from there. -/
structure Orderly (t : Ticker) : Prop where
  /-- the references are those of the owner and of the threads that are there -/
  counted : t.count = t.present + 1
  /-- at most one thread is there -/
  single : ∀ i j, t.runs i = true → t.runs j = true → i = j
  /-- alive while the newest thread is there -/
  alive_iff : t.alive = true ↔ ∃ i, i + 1 = t.threads.length ∧ t.runs i = true
  /-- alive from a start on, until the thread ends -/
  alive_after : ∀ a o, t.perform a = some o →
    (o.state.alive = true ↔ (∃ i, .spawned i ∈ o.events) ∨ (t.alive = true ∧ ∀ i, a ≠ .exit i))
  /-- once a stop, a drop or a start has returned, the threads before it are gone and none of them calls again; alive is
  false after a stop and true after a start -/
  returned : ∀ a o, t.perform a = some o → .returned ∈ o.events →
    (∃ starting, t.owner = .joining starting ∧ o.state.alive = starting) ∧
      ∀ i < t.threads.length, o.state.runs i = false ∧ ∀ later, .called i ∉ (o.state.run later).events
  /-- one more call at most once the message is sent -/
  sent : ∀ starting o, t.owner = .sending starting → t.perform .advance = some o →
    ∀ i < t.threads.length, ∀ later, (o.state.run later).events.count (.called i) ≤ 1
  /-- no call after a break or a panic -/
  quit : ∀ i how o, how ≠ .again → t.perform (.finish i how) = some o →
    ∀ later, .called i ∉ (o.state.run later).events
  /-- the return comes: once the message is sent it takes six steps at most, whoever takes them, and until then there is
  always one to take -/
  returns : ∀ starting o, t.owner = .sending starting → t.perform .advance = some o → ∀ later, o.state.InTurn later →
    .returned ∉ (o.state.run later).events → later.length < 6 ∧ ∃ a, ((o.state.run later).state.perform a).isSome = true

theorem Coherent.single (h : t.Coherent) (hi : t.runs i = true) (hj : t.runs j = true) : i = j :=
  Option.some.inj ((h.awaited i hi).symm.trans (h.awaited j hj))

theorem Coherent.alive_iff (h : t.Coherent) :
    t.alive = true ↔ ∃ i, i + 1 = t.threads.length ∧ t.runs i = true := by
  rw [h.alive_iff_runs]
  constructor
  · rintro ⟨i, hi⟩
    exact ⟨i, h.newest i (h.awaited i hi), hi⟩
  · rintro ⟨i, -, hi⟩
    exact ⟨i, hi⟩

theorem Coherent.alive_after (h : t.Coherent) (ht : t.Turn a t' notes) :
    t'.alive = true ↔ (∃ i, .spawned i ∈ notes) ∨ (t.alive = true ∧ ∀ i, a ≠ .exit i) := by
  simp only [h.alive_iff_runs, (coherent_turn h ht).alive_iff_runs, runs_turn ht]
  constructor
  · rintro ⟨i, hs | ⟨hi, hne⟩⟩
    · exact .inl ⟨i, hs⟩
    · refine .inr ⟨⟨i, hi⟩, ?_⟩
      -- the thread that ends is the only one there
      rintro j rfl
      have hj : t.runs j = true := by
        cases ht with
        | exit _ _ th hj hp => exact (runs_eq hj).trans (Thread.running_of_phase (by simp [hp]))
      exact hne (by rw [h.single hi hj])
  · rintro (⟨i, hs⟩ | ⟨⟨i, hi⟩, hne⟩)
    · exact ⟨i, .inl hs⟩
    · exact ⟨i, .inr ⟨hi, hne i⟩⟩

/-- a thread that is not there makes no call anymore -/
theorem not_called_of_not_runs (hlt : i < t.threads.length) (h : t.runs i = false) (later : List Action) :
    .called i ∉ (t.run later).events := by
  have hi := List.getElem?_eq_getElem hlt
  exact not_called later hi (callsLeft_of_ended ((runs_eq hi).symm.trans h))

theorem Coherent.not_alive (h : t.Coherent) {panicked : Bool} (hj : t.Joined panicked) : t.alive = false := by
  rw [Bool.eq_false_iff, ne_eq, h.alive_iff_runs]
  rintro ⟨i, hi⟩
  rw [h.not_runs hj i] at hi
  cases hi

theorem joined_of_returned (ht : t.Turn a t' notes) (hr : .returned ∈ notes) :
    ∃ starting panicked, t.owner = .joining starting ∧ t.Joined panicked ∧
      ∀ i, .spawned i ∈ notes ↔ starting = true ∧ i = t.threads.length := by
  cases ht with
  | stopped panicked hw hj => exact ⟨false, panicked, hw, hj, by cases panicked <;> simp [farewell]⟩
  | started panicked hw hj => exact ⟨true, panicked, hw, hj, by cases panicked <;> simp [farewell]⟩
  | call => simp at hr
  | _ => cases hr

theorem Coherent.returned (h : t.Coherent) (ht : t.Turn a t' notes) (hr : .returned ∈ notes) :
    (∃ starting, t.owner = .joining starting ∧ t'.alive = starting) ∧
      ∀ i < t.threads.length, t'.runs i = false ∧ ∀ later, .called i ∉ (t'.run later).events := by
  obtain ⟨starting, panicked, hw, hj, hs⟩ := joined_of_returned ht hr
  constructor
  · refine ⟨starting, hw, ?_⟩
    have halive := h.alive_after ht
    simp only [hs, h.not_alive hj] at halive
    cases starting <;> simpa using halive
  · intro i hlt
    have hgone : t'.runs i = false := by
      rw [Bool.eq_false_iff, ne_eq, runs_turn ht, hs, h.not_runs hj]
      simp [hlt.ne]
    exact ⟨hgone, fun later => not_called_of_not_runs (hlt.trans_le (length_turn ht)) hgone later⟩

/-- a thread whose callback does not go on has no call left -/
theorem quit_turn {how : CallEnd} (hne : how ≠ .again) (ht : t.Turn (.finish i how) t' notes) :
    ∃ th, t'.threads[i]? = some th ∧ th.callsLeft = some 0 := by
  cases ht with
  | finish _ _ th hi =>
    refine ⟨{ th with phase := how.phase }, by simp [getElem?_update, hi], ?_⟩
    cases how with
    | again => exact absurd rfl hne
    | done | panic => rfl

theorem Coherent.orderly (h : t.Coherent) : t.Orderly where
  counted := h.counted
  single _ _ := h.single
  alive_iff := h.alive_iff
  alive_after _ _ hp := h.alive_after (turn_of_perform hp)
  returned _ _ hp hr := h.returned (turn_of_perform hp) hr
  sent starting o hw hp i hlt later := by
    obtain ⟨th, k, hi, hk, hle⟩ := h.sent hw (turn_of_perform hp) hlt
    exact (count_called_le later hi hk).trans hle
  quit i how o hne hp later := by
    obtain ⟨th, hi, hk⟩ := quit_turn hne (turn_of_perform hp)
    exact not_called later hi hk
  returns _ _ hw hp _ hturn hnot := h.stop_returns hw (turn_of_perform hp) hturn hnot

/-- **A ticker keeps to its protocol.** Whatever the owner calls, however its steps and those of the threads are put
in order, and however the callbacks end, every moment is `Orderly`; and in the whole run the calls of one start all
come before those of the next. -/
theorem protocol_kept (actions : List Action) :
    (idle.run actions).state.Orderly ∧ ((idle.run actions).events.filterMap Note.called?).Pairwise (· ≤ ·) :=
  ⟨(coherent_run coherent_idle actions).orderly, (calls_in_order coherent_idle actions).1⟩

/-- the one call after the message does happen: the interval had already passed -/
example :
    let sent := idle.run [.start, .advance, .advance, .advance, .look 0, .stop, .advance]
    let later : List Action := [.advance, .call 0, .finish 0 .again, .look 0, .call 0, .exit 0, .advance]
    sent.state.owner = .disconnecting false ∧ (sent.state.run later).events = [.called 0, .returned] := by
  decide

end ChipEight.Ticker
