/-
Handles on keypads. Which key a handle sees is settled by the history of all handles alone: it is the key of the last
press that was taken, on this handle or on one that clones connect it to, unless a release of this key or a clear came
to one of them later. What comes to other handles has no part in it.

Results:
- `holds_step`: what one action makes of the key that a keypad holds;
- `connected_iff`: clones connect two handles exactly if both have the same keypad;
- `keypad_latest`: a keypad holds the key of the latest press, by an induction over the prefixes of a history;
- `keys_follow_history`: the law of the handles, with refused presses, handles apart and clones.
-/
import ChipEight.Keypad
import Mathlib.Tactic

namespace ChipEight.Desk

/-! ## Histories -/

namespace Action

/-- the handle whose keypad the action goes to -/
def handle? : Action → Option Nat
  | .press h _ | .release h _ | .clear h => some h
  | .clone _ | .fresh => none

/-- what it makes of this keypad -/
def leaves (a : Action) (k : Keypad) : Keypad :=
  match a with
  | .press _ key => if key < 16 then some key else k
  | .release _ key => k.release key
  | .clear _ => .released
  | .clone _ | .fresh => k

/-- The key `k` is not held any more: another press is taken, the key is released, or all keys are. -/
def Ends (a : Action) (k : UInt8) : Prop :=
  match a with
  | .press _ key => key < 16
  | .release _ key => key = k
  | .clear _ => True
  | .clone _ | .fresh => False

end Action

/-- how many handles there are after some actions -/
def count (actions : List Action) : Nat := (single.run actions).handles.length

/-- at some time the handle `c` was made as a clone of `h` -/
def Cloned (actions : List Action) (h c : Nat) : Prop :=
  ∃ before after, actions = before ++ .clone h :: after ∧ h < count before ∧ c = count before

/-- clones connect the two handles, to and fro -/
def Connected (actions : List Action) : Nat → Nat → Prop := Relation.EqvGen (Cloned actions)

/-- at time `t` the action came to a handle that is connected to `h` -/
def Heard (actions : List Action) (h t : Nat) (a : Action) : Prop :=
  actions[t]? = some a ∧ ∃ g, a.handle? = some g ∧ g < count (actions.take t) ∧ Connected actions g h

/-! ## One action -/

/-- the keypad of every handle is there -/
def Valid (d : Desk) : Prop := ∀ i ∈ d.handles, i < d.keypads.length

/-- the keypad that an action goes to, if there is its handle -/
def keypad? (d : Desk) (a : Action) : Option Nat := a.handle?.bind fun h => d.handles[h]?

variable {d : Desk} {a : Action} {g h i t : Nat} {k : UInt8} {actions more : List Action}

theorem Action.leaves_eq_some_iff {k₀ : Keypad} :
    a.leaves k₀ = some k ↔ (∃ g, a = .press g k ∧ k < 16) ∨ (k₀ = some k ∧ ¬ a.Ends k) := by
  cases a with
  | press g key =>
    simp only [leaves, Ends, press.injEq]
    split_ifs with hkey
    · grind
    · grind
  | release g key =>
    simp only [leaves, Ends, Keypad.release, reduceCtorEq, false_and, exists_false, false_or]
    grind
  | clear g => simp [leaves, Ends, Keypad.released]
  | clone g | fresh => simp [leaves, Ends]

theorem perform_eq_error_iff {e : KeyError} :
    d.perform a = .error e ↔ ∃ g key, a = .press g key ∧ 15 < key ∧ e = .notOnKeypad key := by
  cases a with
  | press g key =>
    have hle : 15 < key ↔ ¬ key < 16 := by
      rw [UInt8.lt_iff_toNat_lt, UInt8.lt_iff_toNat_lt]
      show 15 < key.toNat ↔ ¬ key.toNat < 16
      omega
    simp only [perform, Keypad.press, Action.press.injEq]
    split_ifs with hkey <;> grind
  | release | clear | fresh => simp [perform]
  | clone g =>
    simp only [perform, reduceCtorEq, false_and, exists_false, iff_false]
    split <;> nofun

theorem step_of_error {e : KeyError} (h : d.perform a = .error e) : d.step a = d := by
  rw [step, h]

section Update

variable {f : Keypad → Keypad}

theorem update_handles : (d.update g f).handles = d.handles := by
  unfold update
  split <;> rfl

theorem length_update : (d.update g f).keypads.length = d.keypads.length := by
  unfold update
  split
  · exact List.length_modify ..
  · rfl

theorem keypads_update :
    (d.update g f).keypads[i]? = d.keypads[i]?.map fun k => if d.handles[g]? = some i then f k else k := by
  unfold update
  cases d.handles[g]? with
  | none => simp
  | some j =>
    simp only [List.getElem?_modify, Option.some.injEq]
    split_ifs <;> simp

theorem update_id : d.update g id = d := by
  unfold update
  split
  · rw [List.modify_id]
  · rfl

end Update

/-- a refused press included, which leaves the keypad as it is -/
theorem step_of_handle (hg : a.handle? = some g) : d.step a = d.update g a.leaves := by
  cases a with
  | press g' key =>
    cases hg
    simp only [step, perform, Keypad.press]
    by_cases hkey : key < 16
    · have hf : Action.leaves (.press g key) = fun _ => some key := funext fun _ => if_pos hkey
      rw [hf, if_pos hkey]
    · have hf : Action.leaves (.press g key) = id := funext fun _ => if_neg hkey
      rw [hf, if_neg hkey, update_id]
  | release g' key | clear g' => cases hg; rfl
  | clone g' | fresh => cases hg

theorem keypads_step_clone {o : Nat} : (d.step (.clone o)).keypads = d.keypads := by
  simp only [step, perform]
  cases d.handles[o]? <;> rfl

theorem keypads_step_fresh : (d.step .fresh).keypads = d.keypads ++ [.released] := rfl

/-- the keypads of the handles that an action appends -/
def appended (d : Desk) : Action → List Nat
  | .clone o => d.handles[o]?.toList
  | .fresh => [d.keypads.length]
  | .press .. | .release .. | .clear _ => []

theorem handles_step : (d.step a).handles = d.handles ++ d.appended a := by
  cases a with
  | press g key | release g key | clear g =>
    rw [step_of_handle (show _ = some g from rfl), update_handles]
    exact (List.append_nil _).symm
  | clone o =>
    simp only [step, perform, appended]
    cases d.handles[o]? <;> simp
  | fresh => rfl

theorem length_keypads_step : d.keypads.length ≤ (d.step a).keypads.length := by
  cases a with
  | press g key | release g key | clear g => rw [step_of_handle (show _ = some g from rfl), length_update]
  | clone o => rw [keypads_step_clone]
  | fresh => simp [keypads_step_fresh]

theorem valid_single : single.Valid := by
  intro i hi
  rw [List.mem_singleton.1 hi]
  exact Nat.zero_lt_one

theorem Valid.step (hd : d.Valid) (a : Action) : (d.step a).Valid := by
  intro i hi
  rw [handles_step] at hi
  have hlength := d.length_keypads_step (a := a)
  rcases List.mem_append.1 hi with hi | hi
  · exact Nat.lt_of_lt_of_le (hd i hi) hlength
  cases a with
  | press g key | release g key | clear g => cases hi
  | clone o =>
    have hmem : i ∈ d.handles := List.mem_of_getElem? (Option.mem_toList.1 hi)
    exact Nat.lt_of_lt_of_le (hd i hmem) hlength
  | fresh =>
    rw [List.mem_singleton.1 hi]
    simp [keypads_step_fresh]

theorem Valid.keypad?_lt (hd : d.Valid) (h : d.keypad? a = some i) : i < d.keypads.length := by
  obtain ⟨g, -, hg⟩ := Option.bind_eq_some_iff.1 h
  exact hd i (List.mem_of_getElem? hg)

/-- a keypad is changed by what goes to it, and by nothing else -/
theorem keypads_step (hi : i < d.keypads.length) :
    (d.step a).keypads[i]? = d.keypads[i]?.map fun k => if d.keypad? a = some i then a.leaves k else k := by
  cases a with
  | press g key | release g key | clear g =>
    rw [step_of_handle (show _ = some g from rfl), keypads_update]
    rfl
  | clone o => simp [keypads_step_clone, keypad?, Action.handle?]
  | fresh =>
    rw [keypads_step_fresh, List.getElem?_append_left hi]
    simp [keypad?, Action.handle?]

/-- on a keypad that an action brings no key is held -/
theorem keypads_step_new (hi : d.keypads.length ≤ i) : (d.step a).keypads[i]? ≠ some (some k) := by
  have hnone : d.keypads[i]? = none := List.getElem?_eq_none hi
  cases a with
  | press g key | release g key | clear g =>
    rw [step_of_handle (show _ = some g from rfl), keypads_update, hnone]
    nofun
  | clone o =>
    rw [keypads_step_clone, hnone]
    nofun
  | fresh =>
    rw [keypads_step_fresh, List.getElem?_append_right hi]
    simp [List.getElem?_singleton, Keypad.released]

/-- the key that a keypad holds after an action was pressed by it, or was held before and not ended by it -/
theorem holds_step (hd : d.Valid) :
    (d.step a).keypads[i]? = some (some k) ↔
      (d.keypad? a = some i ∧ ∃ g, a = .press g k ∧ k < 16) ∨
        (d.keypads[i]? = some (some k) ∧ ¬ (d.keypad? a = some i ∧ a.Ends k)) := by
  by_cases hi : i < d.keypads.length
  · rw [keypads_step hi, List.getElem?_eq_getElem hi]
    by_cases ha : d.keypad? a = some i
    · simp only [ha, if_true, Option.map_some, Option.some.injEq, Action.leaves_eq_some_iff, true_and]
    · simp [ha]
  · have ha : d.keypad? a ≠ some i := fun ha => hi (hd.keypad?_lt ha)
    have hnone : d.keypads[i]? = none := List.getElem?_eq_none (Nat.le_of_not_lt hi)
    simp [keypads_step_new (Nat.le_of_not_lt hi), ha, hnone]

/-! ## Whole histories -/

/-- one event sets, and no event behind it clears -/
def Latest {α : Type} (events : List α) (sets clears : Nat → α → Prop) : Prop :=
  ∃ t e, events[t]? = some e ∧ sets t e ∧ ∀ u f, t < u → events[u]? = some f → ¬ clears u f

theorem latest_nil {α : Type} {sets clears : Nat → α → Prop} : ¬ Latest [] sets clears := by
  rintro ⟨t, e, he, -⟩
  cases he

theorem latest_concat {α : Type} {events : List α} {e : α} {sets clears : Nat → α → Prop} :
    Latest (events ++ [e]) sets clears ↔
      sets events.length e ∨ (Latest events sets clears ∧ ¬ clears events.length e) := by
  have hlast : (events ++ [e])[events.length]? = some e := List.getElem?_concat_length
  constructor
  · rintro ⟨t, f, hf, hset, hclear⟩
    rcases Nat.lt_trichotomy t events.length with ht | rfl | ht
    · rw [List.getElem?_append_left ht] at hf
      refine .inr ⟨⟨t, f, hf, hset, fun u g hu hg => hclear u g hu ?_⟩, hclear _ e ht hlast⟩
      rw [List.getElem?_append_left (List.getElem?_eq_some_iff.1 hg).1]
      exact hg
    · rw [hlast] at hf
      cases hf
      exact .inl hset
    · have hlen := (List.getElem?_eq_some_iff.1 hf).1
      rw [List.length_append, List.length_singleton] at hlen
      omega
  · rintro (hset | ⟨⟨t, f, hf, hset, hclear⟩, hlastclear⟩)
    · refine ⟨_, e, hlast, hset, fun u g hu hg => ?_⟩
      have hlen := (List.getElem?_eq_some_iff.1 hg).1
      rw [List.length_append, List.length_singleton] at hlen
      omega
    · have ht := (List.getElem?_eq_some_iff.1 hf).1
      refine ⟨t, f, by rw [List.getElem?_append_left ht]; exact hf, hset, fun u g hu hg => ?_⟩
      have hlen := (List.getElem?_eq_some_iff.1 hg).1
      rw [List.length_append, List.length_singleton] at hlen
      rcases Nat.lt_or_eq_of_le (Nat.le_of_lt_succ hlen) with hlt | rfl
      · rw [List.getElem?_append_left hlt] at hg
        exact hclear u g hu hg
      · rw [hlast] at hg
        cases hg
        exact hlastclear

theorem run_append : d.run (actions ++ more) = (d.run actions).run more := List.foldl_append

theorem Valid.run (hd : d.Valid) (actions : List Action) : (d.run actions).Valid := by
  induction actions generalizing d with
  | nil => exact hd
  | cons a rest ih => exact ih (hd.step a)

/-- handles stay where they are -/
theorem handles_run : d.handles <+: (d.run actions).handles := by
  induction actions generalizing d with
  | nil => exact List.prefix_refl _
  | cons a rest ih =>
    have hstep : d.handles <+: (d.step a).handles := by
      rw [handles_step]
      exact List.prefix_append _ _
    exact hstep.trans ih

/-- at time `t` the action goes to the keypad `i` -/
def GoesTo (actions : List Action) (i t : Nat) (a : Action) : Prop :=
  (single.run (actions.take t)).keypad? a = some i

theorem keypad_latest (actions : List Action) (i : Nat) (k : UInt8) :
    (single.run actions).keypads[i]? = some (some k) ↔
      Latest actions (fun t a => GoesTo actions i t a ∧ ∃ g, a = .press g k ∧ k < 16)
        (fun t a => GoesTo actions i t a ∧ a.Ends k) := by
  -- the times are those of the whole history, so the induction is over its prefixes
  suffices h : ∀ n ≤ actions.length, (single.run (actions.take n)).keypads[i]? = some (some k) ↔
      Latest (actions.take n) (fun t a => GoesTo actions i t a ∧ ∃ g, a = .press g k ∧ k < 16)
        (fun t a => GoesTo actions i t a ∧ a.Ends k) by
    simpa using h actions.length le_rfl
  intro n hn
  induction n with
  | zero =>
    refine iff_of_false ?_ (by simpa using latest_nil)
    cases i <;> simp [run, single, Keypad.released]
  | succ n ih =>
    have hlt : n < actions.length := hn
    have hlength : (actions.take n).length = n := List.length_take_of_le hlt.le
    rw [List.take_succ_eq_append_getElem hlt, latest_concat, run_append, hlength, ← ih hlt.le]
    exact holds_step (valid_single.run _)

/-! ## Connected handles -/

theorem handles_prefix (before after : List Action) :
    (single.run before).handles <+: (single.run (before ++ after)).handles := by
  rw [run_append]
  exact handles_run

/-- a handle is on the same keypad ever after -/
theorem getElem?_handles_append {before : List Action} (after : List Action) (hh : h < count before) :
    (single.run (before ++ after)).handles[h]? = (single.run before).handles[h]? := by
  obtain ⟨rest, hrest⟩ := handles_prefix before after
  rw [← hrest, List.getElem?_append_left hh]

theorem connected_append (hc : Connected actions g h) : Connected (actions ++ more) g h := by
  refine Relation.EqvGen.mono ?_ _ _ hc
  rintro g c ⟨before, after, rfl, hg, hcount⟩
  exact ⟨before, after ++ more, by simp, hg, hcount⟩

/-- the handle that an action brought is on its keypad ever after -/
theorem getElem?_handles_appended {before after : List Action} (hnew : (single.run before).appended a = [i]) :
    (single.run (before ++ a :: after)).handles[count before]? = some i := by
  have hnow : (single.run (before ++ [a])).handles = (single.run before).handles ++ [i] := by
    rw [run_append, ← hnew]
    exact handles_step
  have hlast : (single.run (before ++ [a])).handles[count before]? = some i := by
    rw [hnow]
    exact List.getElem?_concat_length
  have hlt : count before < count (before ++ [a]) := (List.getElem?_eq_some_iff.1 hlast).1
  have hsplit : before ++ a :: after = (before ++ [a]) ++ after := by simp
  rw [hsplit, getElem?_handles_append _ hlt, hlast]

/-- a clone is on the keypad of its origin -/
theorem Cloned.handles_eq {c : Nat} (hc : Cloned actions h c) :
    (single.run actions).handles[h]? = (single.run actions).handles[c]? := by
  obtain ⟨before, after, rfl, hh, rfl⟩ := hc
  have hi : (single.run before).handles[h]? = some _ := List.getElem?_eq_getElem hh
  have hnew : (single.run before).appended (.clone h) = [(single.run before).handles[h]] := by
    simp only [appended, hi, Option.toList_some]
  rw [getElem?_handles_append _ hh, getElem?_handles_appended hnew, hi]

theorem handles_eq_of_connected (hc : Connected actions g h) :
    (single.run actions).handles[g]? = (single.run actions).handles[h]? := by
  induction hc with
  | rel g h hc => exact hc.handles_eq
  | refl g => rfl
  | symm g h _ ih => exact ih.symm
  | trans g h c _ _ ih ih' => exact ih.trans ih'

/-- a handle that an action brings is a clone, or on a keypad that no handle was on before -/
theorem appended_cases (hi : (d.step a).handles[g]? = some i) (hg : d.handles.length ≤ g) :
    g = d.handles.length ∧ ((∃ o, a = .clone o ∧ d.handles[o]? = some i) ∨ (a = .fresh ∧ i = d.keypads.length)) := by
  rw [handles_step, List.getElem?_append_right hg] at hi
  have hlt := (List.getElem?_eq_some_iff.1 hi).1
  cases a with
  | press _ _ | release _ _ | clear _ => cases hi
  | clone o =>
    cases ho : d.handles[o]? with
    | none => simp [appended, ho] at hi
    | some j =>
      simp only [appended, ho, Option.toList_some, List.length_singleton] at hi hlt
      obtain rfl : g = d.handles.length := by omega
      simp only [Nat.sub_self, List.getElem?_cons_zero, Option.some.injEq] at hi
      exact ⟨rfl, .inl ⟨o, rfl, hi ▸ ho⟩⟩
  | fresh =>
    simp only [appended, List.length_singleton] at hi hlt
    obtain rfl : g = d.handles.length := by omega
    simp only [Nat.sub_self, List.getElem?_cons_zero, Option.some.injEq] at hi
    exact ⟨rfl, .inr ⟨rfl, hi.symm⟩⟩

/-- no two handles are on one keypad unless clones connect them -/
theorem connected_of_handles_eq (hi : (single.run actions).handles[g]? = some i)
    (hi' : (single.run actions).handles[h]? = some i) : Connected actions g h := by
  induction actions using List.reverseRecOn generalizing g h i with
  | nil =>
    have hzero (g : Nat) (hg : (single.run []).handles[g]? = some i) : g = 0 := by
      have hlt := (List.getElem?_eq_some_iff.1 hg).1
      exact Nat.lt_one_iff.1 hlt
    rw [hzero g hi, hzero h hi']
    exact .refl 0
  | append_singleton actions a ih =>
    have hrun : single.run (actions ++ [a]) = (single.run actions).step a := run_append
    have hold {g : Nat} (hg : g < count actions) (hi : (single.run (actions ++ [a])).handles[g]? = some i) :
        (single.run actions).handles[g]? = some i := getElem?_handles_append _ hg ▸ hi
    -- of a new handle and an old one the new one is a clone
    have hnew {c e : Nat} (hc : count actions ≤ c) (hci : (single.run (actions ++ [a])).handles[c]? = some i)
        (hei : (single.run actions).handles[e]? = some i) : Connected (actions ++ [a]) c e := by
      obtain ⟨rfl, ⟨o, rfl, ho⟩ | ⟨-, rfl⟩⟩ := appended_cases (hrun ▸ hci) hc
      · have hcloned : Cloned (actions ++ [.clone o]) o (count actions) :=
          ⟨actions, [], rfl, (List.getElem?_eq_some_iff.1 ho).1, rfl⟩
        exact .trans _ o _ (.symm _ _ (.rel _ _ hcloned)) (connected_append (ih ho hei))
      · exact absurd (valid_single.run actions _ (List.mem_of_getElem? hei)) (Nat.lt_irrefl _)
    rcases Nat.lt_or_ge g (count actions) with hg | hg <;>
    rcases Nat.lt_or_ge h (count actions) with hh | hh
    · exact connected_append (ih (hold hg hi) (hold hh hi'))
    · exact .symm _ _ (hnew hh hi' (hold hg hi))
    · exact hnew hg hi (hold hh hi')
    · obtain ⟨rfl, -⟩ := appended_cases (hrun ▸ hi) hg
      obtain ⟨rfl, -⟩ := appended_cases (hrun ▸ hi') hh
      exact .refl (count actions)

theorem connected_iff (hh : h < count actions) :
    Connected actions g h ↔ (single.run actions).handles[g]? = (single.run actions).handles[h]? := by
  refine ⟨handles_eq_of_connected, fun heq => ?_⟩
  have hi : (single.run actions).handles[h]? = some _ := List.getElem?_eq_getElem hh
  exact connected_of_handles_eq (heq.trans hi) hi

/-! ## Handles and keypads -/

/-- what a handle sees is what its keypad holds -/
theorem held_eq_some_iff (hi : d.handles[h]? = some i) : d.held h = some k ↔ d.keypads[i]? = some (some k) := by
  simp only [held, hi, Option.bind_eq_bind, Option.bind_some]
  cases d.keypads[i]? <;> simp

/-- what a handle hears is what goes to its keypad -/
theorem heard_iff (hi : (single.run actions).handles[h]? = some i) (ha : actions[t]? = some a) :
    Heard actions h t a ↔ GoesTo actions i t a := by
  have hh : h < count actions := (List.getElem?_eq_some_iff.1 hi).1
  have hthen {g : Nat} (hg : g < count (actions.take t)) :
      (single.run actions).handles[g]? = (single.run (actions.take t)).handles[g]? := by
    have hsame := getElem?_handles_append (actions.drop t) hg
    rwa [List.take_append_drop] at hsame
  constructor
  · rintro ⟨-, g, hg, hlt, hc⟩
    rw [GoesTo, keypad?, hg, Option.bind_some, ← hthen hlt, (connected_iff hh).1 hc, hi]
  · intro hgoes
    obtain ⟨g, hg, hgi⟩ := Option.bind_eq_some_iff.1 hgoes
    have hlt : g < count (actions.take t) := (List.getElem?_eq_some_iff.1 hgi).1
    exact ⟨ha, g, hg, hlt, (connected_iff hh).2 (by rw [hthen hlt, hgi, hi])⟩

/-- what does not go to a keypad leaves it as it is -/
theorem keypads_run_of_unreached (hi : i < d.keypads.length)
    (hmore : ∀ t a, more[t]? = some a → (d.run (more.take t)).keypad? a ≠ some i) :
    (d.run more).keypads[i]? = d.keypads[i]? := by
  induction more generalizing d with
  | nil => rfl
  | cons a rest ih =>
    have hfirst : d.keypad? a ≠ some i := hmore 0 a rfl
    have hstep : (d.step a).keypads[i]? = d.keypads[i]? := by
      rw [keypads_step hi]
      simp [hfirst]
    have hlt := Nat.lt_of_lt_of_le hi (d.length_keypads_step (a := a))
    exact (ih hlt fun t b hb => hmore (t + 1) b hb).trans hstep

theorem held_of_unheard (hh : h < count actions)
    (hmore : ∀ t a, actions.length ≤ t → ¬ Heard (actions ++ more) h t a) :
    (single.run (actions ++ more)).held h = (single.run actions).held h := by
  set d := single.run actions
  have hi : d.handles[h]? = some _ := List.getElem?_eq_getElem hh
  set i := d.handles[h]
  have hvalid : i < d.keypads.length := valid_single.run actions i (List.mem_of_getElem? hi)
  have hi' : (single.run (actions ++ more)).handles[h]? = some i := (getElem?_handles_append _ hh).trans hi
  have hkeypad : (single.run (actions ++ more)).keypads[i]? = d.keypads[i]? := by
    rw [run_append]
    refine keypads_run_of_unreached hvalid fun t a ha hgoes => hmore (actions.length + t) a (Nat.le_add_right _ _) ?_
    have ha' : (actions ++ more)[actions.length + t]? = some a := by
      rw [List.getElem?_append_right (Nat.le_add_right _ _), Nat.add_sub_cancel_left]
      exact ha
    rw [heard_iff hi' ha', GoesTo, List.take_length_add_append, run_append]
    exact hgoes
  exact Option.ext fun k => by rw [held_eq_some_iff hi, held_eq_some_iff hi', hkeypad]

/-- a handle on a keypad of its own is connected to none before it -/
theorem not_connected_fresh {before after : List Action} (hg : g < count before) :
    ¬ Connected (before ++ .fresh :: after) g (count before) := by
  intro hc
  have hsame := handles_eq_of_connected hc
  rw [getElem?_handles_append _ hg, getElem?_handles_appended (a := .fresh) rfl] at hsame
  exact Nat.lt_irrefl _ (valid_single.run before _ (List.mem_of_getElem? hsame))

/-- **Keys follow the history of connected handles.**

- A handle sees the key `k` exactly if `k` is on the keypad, a press of it came to the handle or to one that clones
  connect it to, and no press that was taken, no clear and no release of `k` came to one of them later.
- The only refused actions are presses of keys above fifteen, and they change nothing.
- A handle on a keypad of its own is connected to no older one, and what is not heard by a handle makes no difference to
  it.
- A clone sees the same key as its origin, whatever happens from then on. -/
theorem keys_follow_history (actions : List Action) :
    (∀ h < count actions, ∀ k, (single.run actions).held h = some k ↔
      k < 16 ∧ ∃ t g, Heard actions h t (.press g k) ∧
        ∀ u a, t < u → Heard actions h u a → ¬ a.Ends k) ∧
    (∀ (d : Desk) a, (∀ e, d.perform a = .error e ↔ ∃ g key, a = .press g key ∧ 15 < key ∧ e = .notOnKeypad key) ∧
      ((∃ e, d.perform a = .error e) → d.step a = d)) ∧
    (∀ before after, actions = before ++ .fresh :: after → ∀ g < count before,
      ¬ Connected actions g (count before)) ∧
    (∀ more, ∀ h < count actions, (∀ t a, actions.length ≤ t → ¬ Heard (actions ++ more) h t a) →
      (single.run (actions ++ more)).held h = (single.run actions).held h) ∧
    ∀ more, ∀ h < count actions,
      let d := single.run (actions ++ .clone h :: more)
      count actions < d.handles.length ∧ d.held (count actions) = d.held h := by
  refine ⟨fun h hh k => ?_, fun d a => ⟨fun e => perform_eq_error_iff, fun ⟨e, he⟩ => step_of_error he⟩, ?_,
    fun more h hh => held_of_unheard hh, fun more h hh => ?_⟩
  · have hi : (single.run actions).handles[h]? = some _ := List.getElem?_eq_getElem hh
    rw [held_eq_some_iff hi, keypad_latest]
    constructor
    · rintro ⟨t, a, ha, ⟨hgoes, g, rfl, hk⟩, hends⟩
      refine ⟨hk, t, g, (heard_iff hi ha).2 hgoes, fun u b hu hb hend => ?_⟩
      exact hends u b hu hb.1 ⟨(heard_iff hi hb.1).1 hb, hend⟩
    · rintro ⟨hk, t, g, hset, hends⟩
      refine ⟨t, _, hset.1, ⟨(heard_iff hi hset.1).1 hset, g, rfl, hk⟩, fun u b hu hb hend => ?_⟩
      exact hends u b hu ((heard_iff hi hb).2 hend.1) hend.2
  · rintro before after rfl g hg
    exact not_connected_fresh hg
  · -- what a handle sees depends on its keypad alone
    have hcloned : Cloned (actions ++ .clone h :: more) h (count actions) := ⟨actions, more, rfl, hh, rfl⟩
    have hsame := hcloned.handles_eq
    have hi : (single.run actions).handles[h]? = some _ := List.getElem?_eq_getElem hh
    have hlt := (List.getElem?_eq_some_iff.1 (hsame.symm.trans ((getElem?_handles_append _ hh).trans hi))).1
    exact ⟨hlt, by simp only [held, hsame]⟩

/-- handle 1 is a clone of handle 0, handle 2 has a keypad of its own, and there is no key 200 -/
def pressedThrough : List Action := [.clone 0, .fresh, .press 1 5, .press 2 9, .release 0 3, .press 1 200]

/-- handle 0 sees the key that was pressed on its clone -/
theorem pressedThrough_heard :
    (single.run pressedThrough).held 0 = some 5 ∧
      (∃ t g, Heard pressedThrough 0 t (.press g 5) ∧
        ∀ u a, t < u → Heard pressedThrough 0 u a → ¬ a.Ends 5) ∧
      ¬ Connected pressedThrough 0 2 ∧
      (single.run pressedThrough).step (.press 0 16) = single.run pressedThrough ∧
      (single.run (pressedThrough ++ [.clone 0, .clear 1])).held 3 =
        (single.run (pressedThrough ++ [.clone 0, .clear 1])).held 0 := by
  have hheld : (single.run pressedThrough).held 0 = some 5 := by decide
  obtain ⟨hlaw, hrefused, hapart, -, hclone⟩ := keys_follow_history pressedThrough
  obtain ⟨hrefusedIff, hsame⟩ := hrefused (single.run pressedThrough) (.press 0 16)
  refine ⟨hheld, ((hlaw 0 (by decide) 5).1 hheld).2, hapart [.clone 0] _ rfl 0 (by decide),
    hsame ⟨.notOnKeypad 16, ?_⟩, ?_⟩
  · exact (hrefusedIff _).2 ⟨0, 16, rfl, by decide, rfl⟩
  · exact (hclone [.clear 1] 0 (by decide)).2

end ChipEight.Desk
