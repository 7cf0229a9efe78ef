/-
What an operation comes to. An `Outcome` holds its value, the state it leaves behind and the events it caused, oldest
first; a `Failure` is a cause the operation reports, or a call outside of its contract. The state is there either way:
what changed before a failure stays changed.

An `Attempt` is an operation in steps that may fail at any of them. The first step that fails ends it, with the state
and the events of the steps until then.
-/
namespace ChipEight

/-- why an operation has no result -/
inductive Failure (ε : Type) where
  /-- refused, for a reported cause -/
  | error (cause : ε)
  /-- called with operands that its contract excludes -/
  | contract
deriving DecidableEq, Repr

/-- the value of an operation, the state after it and its events -/
structure Outcome (ε σ α : Type) where
  value : α
  state : σ
  events : List ε

namespace Outcome

variable {ε σ α β : Type}

/-- an outcome without events -/
def quiet (a : α) (s : σ) : Outcome ε σ α := ⟨a, s, []⟩

/-- carries on from the state reached, the events of both in order -/
def andThen (o : Outcome ε σ α) (f : α → σ → Outcome ε σ β) : Outcome ε σ β :=
  let p := f o.value o.state
  ⟨p.value, p.state, o.events ++ p.events⟩

/-- changes the state reached -/
def change (o : Outcome ε σ α) (f : σ → σ) : Outcome ε σ α := { o with state := f o.state }

/-- one more event at the end -/
def note (o : Outcome ε σ α) (e : ε) : Outcome ε σ α := { o with events := o.events ++ [e] }

/-- another value -/
def map (f : α → β) (o : Outcome ε σ α) : Outcome ε σ β := ⟨f o.value, o.state, o.events⟩

/-- an operation that cannot fail, `n` times -/
def times (f : σ → Outcome ε σ Unit) : Nat → σ → Outcome ε σ Unit
  | 0, s => quiet () s
  | n + 1, s => (f s).andThen fun _ s => times f n s

end Outcome

/-- an operation in steps, each of which may fail -/
def Attempt (ε σ φ α : Type) : Type := σ → Outcome ε σ (Except φ α)

namespace Attempt

variable {ε σ φ α β : Type}

/-- goes on with the value if there is one; if not, what was done so far is all that is done -/
def bind (x : Attempt ε σ φ α) (f : α → Attempt ε σ φ β) : Attempt ε σ φ β := fun s =>
  (x s).andThen fun
    | .ok a => f a
    | .error e => .quiet (.error e)

instance : Monad (Attempt ε σ φ) where
  pure a := .quiet (.ok a)
  bind := bind

/-- looks at the state -/
def reads (f : σ → α) : Attempt ε σ φ α := fun s => .quiet (.ok (f s)) s

/-- changes the state -/
def modify (f : σ → σ) : Attempt ε σ φ Unit := fun s => .quiet (.ok ()) (f s)

/-- causes an event -/
def emit (e : ε) : Attempt ε σ φ Unit := fun s => ⟨.ok (), s, [e]⟩

def fail (e : φ) : Attempt ε σ φ α := .quiet (.error e)

/-- fails, unless there is a value -/
def ofExcept (x : Except φ α) : Attempt ε σ φ α := .quiet x

instance : MonadLift (Except φ) (Attempt ε σ φ) := ⟨ofExcept⟩

section Bind

variable {x : Attempt ε σ φ α} {f : α → Attempt ε σ φ β} {s t : σ}

theorem bind_apply : (x >>= f) s = (x s).andThen fun | .ok a => f a | .error e => .quiet (.error e) := rfl

theorem bind_of_ok {a : α} (h : x s = .quiet (.ok a) t) : (x >>= f) s = f a t := by
  rw [bind_apply, h]; rfl

theorem bind_of_error {e : φ} (h : x s = .quiet (.error e) t) : (x >>= f) s = .quiet (.error e) t := by
  rw [bind_apply, h]; rfl

theorem lift_bind (a : α) : (liftM (.ok a : Except φ α) >>= f) s = f a s := rfl

theorem reads_bind (g : σ → α) : (reads g >>= f) s = f (g s) s := rfl

end Bind

end Attempt

/-- the results of repeating a fallible operation, up to its first failure -/
structure Repeated (ε σ φ α : Type) where
  done : List α
  failure : Option φ
  state : σ
  events : List ε

/-- at most `n` times `f`, stopping at the first failure -/
def repeated {ε σ φ α : Type} (f : σ → Outcome ε σ (Except φ α)) : Nat → σ → Repeated ε σ φ α
  | 0, s => ⟨[], none, s, []⟩
  | n + 1, s =>
    let o := f s
    match o.value with
    | .error e => ⟨[], some e, o.state, o.events⟩
    | .ok a =>
      let r := repeated f n o.state
      { r with done := a :: r.done, events := o.events ++ r.events }

end ChipEight
