/-
A stop returns. Once the owner has sent its message it waits for a thread that finds its channel filled: whatever the
two do next brings the return nearer, and one of them can always do something. So no order of their steps keeps the
owner waiting, as long as a callback that is called comes back.

Results:
- `closing_of_sent`, `closing_turn`: behind the message every step is the return or leaves fewer steps to it;
- `closing_not_stuck`: there is always a step to take;
- `Coherent.stop_returns`: six steps are enough, whichever they are.
-/
import ChipEight.Proofs.Ticker.Turn

namespace ChipEight.Ticker

variable {t t' : Ticker} {th : Thread} {a : Action} {notes : List Note} {o : Outcome Note Ticker Unit} {i : Nat}

/-! ## Steps that are left -/

/-- steps of a thread to its end, if it is told -/
def Phase.stepsLeft : Phase → Nat
  | .due => 4
  | .calling => 3
  | .waiting => 2
  | .leaving _ => 1
  | .ended _ => 0

/-- steps of the owner to its return, if there is nobody to wait for -/
def Owner.stepsLeft : Owner → Nat
  | .free => 0
  | .joining _ => 1
  | .disconnecting _ => 2
  | .sending _ => 3

def stepsLeft (t : Ticker) : Nat :=
  t.owner.stepsLeft + ((t.handle.bind fun i => t.threads[i]?).map fun th => th.phase.stepsLeft).getD 0

/-- The message is sent, and the owner has not returned. -/
structure Closing (t : Ticker) : Prop where
  coherent : t.Coherent
  owner : ∃ starting, t.owner = .disconnecting starting ∨ t.owner = .joining starting
  /-- every thread is told, or behind its last call -/
  bounded : ∀ (i : Nat) (th : Thread), t.threads[i]? = some th → ∃ k ≤ 1, th.callsLeft = some k

theorem closing_of_sent (h : t.Coherent) {starting : Bool} (hw : t.owner = .sending starting)
    (ht : t.Turn .advance t' notes) : t'.Closing := by
  have hlen : t'.threads.length = t.threads.length ∧
      (t'.owner = .disconnecting starting ∨ t'.owner = .joining starting) := by
    cases ht with
    | send b i hb => rw [hw] at hb; cases hb; exact ⟨length_update .., .inl rfl⟩
    | skip b hb =>
      rcases hb with hb | hb <;> rw [hw] at hb <;> cases hb
      exact ⟨rfl, .inr rfl⟩
    | disconnect _ _ hb | stopped _ hb | started _ hb => rw [hw] at hb; cases hb
  refine ⟨coherent_turn h ht, ⟨starting, hlen.2⟩, fun i th hi => ?_⟩
  obtain ⟨th', k, hi', hk, hle⟩ := h.sent hw ht (hlen.1 ▸ (List.getElem?_eq_some_iff.mp hi).1)
  obtain rfl : th' = th := Option.some.inj (hi'.symm.trans hi)
  exact ⟨k, hle, hk⟩

/-- the bounds stay as long as no thread comes -/
theorem Closing.bounded_turn (h : t.Closing) (ht : t.Turn a t' notes) (hl : t'.threads.length = t.threads.length)
    (i : Nat) (th' : Thread) (hi' : t'.threads[i]? = some th') : ∃ k ≤ 1, th'.callsLeft = some k := by
  have hi := List.getElem?_eq_getElem (hl ▸ (List.getElem?_eq_some_iff.mp hi').1)
  obtain ⟨k, hle, hk⟩ := h.bounded i _ hi
  obtain ⟨u, k', hu, hk', hle'⟩ := callsLeft_turn ht hi hk
  obtain rfl : u = th' := Option.some.inj (hu.symm.trans hi')
  exact ⟨k', by omega, hk'⟩

theorem stepsLeft_eq (hh : t.handle = some i) (hi : t.threads[i]? = some th) :
    t.stepsLeft = t.owner.stepsLeft + th.phase.stepsLeft := by
  simp [stepsLeft, hh, hi]

theorem stepsLeft_moved {f : Thread → Phase} (h : t.Coherent) (hi : t.threads[i]? = some th) (hr : th.running = true)
    (hf : (f th).stepsLeft < th.phase.stepsLeft) :
    (t.update i fun th => { th with phase := f th }).stepsLeft < t.stepsLeft := by
  have hh : t.handle = some i := h.awaited i ((runs_eq hi).trans hr)
  have hi' : (t.update i fun th => { th with phase := f th }).threads[i]? = some { th with phase := f th } := by
    simp [getElem?_update, hi]
  rw [stepsLeft_eq hh hi, stepsLeft_eq (t := t.update i _) hh hi']
  exact Nat.add_lt_add_left hf _

theorem stepsLeft_disconnect {starting : Bool} (hw : t.owner = .disconnecting starting) (i : Nat) :
    { t.update i disconnect with sender := none, owner := .joining starting }.stepsLeft < t.stepsLeft := by
  have hsame (j : Nat) : ((t.update i disconnect).threads[j]?).map (fun th => th.phase.stepsLeft) =
      (t.threads[j]?).map fun th => th.phase.stepsLeft := by
    cases hj : t.threads[j]? with
    | none => simp [getElem?_update, hj]
    | some th => by_cases hij : i = j <;> simp [getElem?_update, hj, hij, disconnect]
  cases hh : t.handle with
  | none => simp [stepsLeft, update, hw, hh, Owner.stepsLeft]
  | some j =>
    have hj := congrArg (Option.getD · 0) (hsame j)
    simp only [update] at hj
    simp [stepsLeft, update, hw, hh, Owner.stepsLeft, hj]

/-- **Behind the message every step is the return or leaves fewer steps to it.** -/
theorem closing_turn (h : t.Closing) (ht : t.Turn a t' notes) :
    .returned ∈ notes ∨ (t'.Closing ∧ t'.stepsLeft < t.stepsLeft) := by
  have hb := h.bounded_turn ht
  obtain ⟨starting, hw⟩ := h.owner
  have hc := coherent_turn h.coherent ht
  cases ht with
  | start hf | stop hf => rw [hf] at hw; simp at hw
  | send _ _ hs => rw [hs] at hw; simp at hw
  | stopped panicked | started panicked => left; cases panicked <;> simp [farewell]
  | disconnect b i hd =>
    exact .inr ⟨⟨hc, ⟨b, .inr rfl⟩, hb (length_update ..)⟩, stepsLeft_disconnect hd i⟩
  | skip b hd =>
    rcases hd with hd | hd
    · rw [hd] at hw; simp at hw
    · exact .inr ⟨⟨hc, ⟨b, .inr rfl⟩, hb rfl⟩, by simp [stepsLeft, hd, Owner.stepsLeft]⟩
  | look i th hi hp =>
    refine .inr ⟨⟨hc, ⟨starting, hw⟩, hb (length_update ..)⟩, ?_⟩
    have htold : th.told = true := by
      obtain ⟨k, -, hk⟩ := h.bounded i th hi
      by_contra hn
      simp [Thread.callsLeft, hp, hn] at hk
    refine stepsLeft_moved h.coherent hi (Thread.running_of_phase (by simp [hp])) ?_
    rw [Thread.told] at htold
    simp [Thread.next, htold, hp, Phase.stepsLeft]
  | call i th hi hp =>
    refine .inr ⟨⟨hc, ⟨starting, hw⟩, hb (length_update ..)⟩, ?_⟩
    exact stepsLeft_moved h.coherent hi (Thread.running_of_phase (by simp [hp])) (by simp [hp, Phase.stepsLeft])
  | finish i how th hi hp =>
    refine .inr ⟨⟨hc, ⟨starting, hw⟩, hb (length_update ..)⟩, ?_⟩
    exact stepsLeft_moved h.coherent hi (Thread.running_of_phase (by simp [hp]))
      (by cases how <;> simp [hp, CallEnd.phase, Phase.stepsLeft])
  | exit i panicked th hi hp =>
    refine .inr ⟨⟨hc, ⟨starting, hw⟩, hb (length_update ..)⟩, ?_⟩
    exact stepsLeft_moved h.coherent hi (Thread.running_of_phase (by simp [hp])) (by simp [hp, Phase.stepsLeft])

/-- a thread that is waited for can always go on, and so can an owner that waits for nobody -/
theorem closing_not_stuck (h : t.Closing) : ∃ a, (t.perform a).isSome = true := by
  obtain ⟨starting, hw | hw⟩ := h.owner
  · cases hs : t.sender with
    | none => exact ⟨.advance, by simp [perform, advance, hw, hs]⟩
    | some i => exact ⟨.advance, by simp [perform, advance, hw, hs]⟩
  · cases hh : t.handle with
    | none => exact ⟨.advance, by simp [perform, advance, hw, hh]⟩
    | some i =>
      have hlt : i < t.threads.length := by have := h.coherent.newest i hh; omega
      obtain ⟨⟨phase, message, connected⟩, hi⟩ : ∃ th, t.threads[i]? = some th :=
        ⟨_, List.getElem?_eq_getElem hlt⟩
      cases phase with
      | waiting => exact ⟨.look i, by simp [perform, look, hi]⟩
      | due => exact ⟨.call i, by simp [perform, call, hi]⟩
      | calling => exact ⟨.finish i .again, by simp [perform, finishCall, hi]⟩
      | leaving panicked => exact ⟨.exit i, by simp [perform, exit, hi]⟩
      | ended panicked => exact ⟨.advance, by simp [perform, advance, hw, hh, hi]⟩

/-! ## Runs to the return -/

/-- every action has its turn -/
inductive InTurn : Ticker → List Action → Prop where
  | nil (t : Ticker) : InTurn t []
  | cons {t : Ticker} {a : Action} {o : Outcome Note Ticker Unit} {rest : List Action} (hp : t.perform a = some o)
    (h : InTurn o.state rest) : InTurn t (a :: rest)

theorem closing_run {later : List Action} (h : t.Closing) (hturn : t.InTurn later) :
    .returned ∈ (t.run later).events ∨
      ((t.run later).state.Closing ∧ (t.run later).state.stepsLeft + later.length ≤ t.stepsLeft) := by
  induction hturn with
  | nil t => exact .inr ⟨h, le_rfl⟩
  | @cons t a o rest hp _ ih =>
    rw [run_cons_of_some hp]
    rcases closing_turn h (turn_of_perform hp) with hr | ⟨hc, hlt⟩
    · exact .inl (List.mem_append_left _ hr)
    · rcases ih hc with hr | ⟨hc', hle⟩
      · exact .inl (List.mem_append_right _ hr)
      · refine .inr ⟨hc', ?_⟩
        show (o.state.run rest).state.stepsLeft + (rest.length + 1) ≤ t.stepsLeft
        omega

theorem Closing.stepsLeft_le (h : t.Closing) : t.stepsLeft ≤ 6 := by
  have howner : t.owner.stepsLeft ≤ 2 := by
    obtain ⟨starting, hw | hw⟩ := h.owner <;> simp [hw, Owner.stepsLeft]
  have hphase : ((t.handle.bind fun i => t.threads[i]?).map fun th => th.phase.stepsLeft).getD 0 ≤ 4 := by
    cases t.handle.bind fun i => t.threads[i]? with
    | none => simp
    | some th => cases hp : th.phase <;> simp [hp, Phase.stepsLeft]
  unfold stepsLeft
  omega

theorem Closing.stepsLeft_pos (h : t.Closing) : 0 < t.stepsLeft := by
  have howner : 0 < t.owner.stepsLeft := by
    obtain ⟨starting, hw | hw⟩ := h.owner <;> simp [hw, Owner.stepsLeft]
  unfold stepsLeft
  omega

/-- **A stop returns.** Once the owner has sent its message, six steps that have their turn are enough for the return,
whoever takes them; and until then there is always one to take. -/
theorem Coherent.stop_returns (h : t.Coherent) {starting : Bool} (hw : t.owner = .sending starting)
    (ht : t.Turn .advance t' notes) {later : List Action} (hturn : t'.InTurn later)
    (hnot : .returned ∉ (t'.run later).events) :
    later.length < 6 ∧ ∃ a, ((t'.run later).state.perform a).isSome = true := by
  have hc := closing_of_sent h hw ht
  obtain ⟨hc', hle⟩ := (closing_run hc hturn).resolve_left hnot
  have hpos := hc'.stepsLeft_pos
  have hmost := hc.stepsLeft_le
  exact ⟨by omega, closing_not_stuck hc'⟩

end ChipEight.Ticker
