/-
The hex keypad: sixteen keys, of which at most one counts as held, the last one pressed. Its state is the held key; a
`Desk` is a number of handles on a number of keypads, where a cloned handle shares the keypad of its origin.
-/
import ChipEight.Hex

namespace ChipEight

/-- a press that no keypad takes -/
inductive KeyError where
  | notOnKeypad (key : UInt8)
deriving DecidableEq, Repr

def KeyError.message : KeyError → String
  | .notOnKeypad key => "The key " ++ Hex.literal 1 key.toNat ++ " is not part of the hex keyboard."

/-- the held key -/
abbrev Keypad := Option UInt8

namespace Keypad

def released : Keypad := none

/-- the keypad after a press, whichever key was held before -/
def press (key : UInt8) : Except KeyError Keypad :=
  if key < 16 then .ok (some key) else .error (.notOnKeypad key)

/-- only the held key can be released -/
def release (k : Keypad) (key : UInt8) : Keypad := if k = some key then none else k

end Keypad

/-! ## Handles -/

/-- keypads, and for each handle the number of its keypad -/
structure Desk where
  keypads : List Keypad
  handles : List Nat
deriving DecidableEq, Repr

namespace Desk

/-- what a host does with its handles -/
inductive Action where
  | press (handle : Nat) (key : UInt8)
  | release (handle : Nat) (key : UInt8)
  | clear (handle : Nat)
  /-- appends a handle on the same keypad -/
  | clone (handle : Nat)
  /-- appends a handle on a keypad of its own -/
  | fresh
deriving DecidableEq, Repr

/-- one keypad, one handle -/
def single : Desk := ⟨[.released], [0]⟩

/-- the key that a handle sees, nothing without such a handle -/
def held (d : Desk) (handle : Nat) : Option UInt8 := do
  let i ← d.handles[handle]?
  let k ← d.keypads[i]?
  k

/-- changes the keypad of a handle -/
def update (d : Desk) (handle : Nat) (f : Keypad → Keypad) : Desk :=
  match d.handles[handle]? with
  | some i => { d with keypads := d.keypads.modify i f }
  | none => d

/-- one action; a refused press changes no keypad -/
def perform (d : Desk) : Action → Except KeyError Desk
  | .press h key =>
    match Keypad.press key with
    | .ok k => .ok (d.update h fun _ => k)
    | .error e => .error e
  | .release h key => .ok (d.update h (·.release key))
  | .clear h => .ok (d.update h fun _ => .released)
  | .clone h =>
    match d.handles[h]? with
    | some i => .ok { d with handles := d.handles ++ [i] }
    | none => .ok d
  | .fresh => .ok ⟨d.keypads ++ [.released], d.handles ++ [d.keypads.length]⟩

/-- one action, nothing if it is refused -/
def step (d : Desk) (a : Action) : Desk :=
  match d.perform a with
  | .ok d => d
  | .error _ => d

def run (d : Desk) (actions : List Action) : Desk := actions.foldl step d

/-- what every handle sees -/
def view (d : Desk) : List (Option UInt8) := (List.range d.handles.length).map d.held

end Desk

end ChipEight
