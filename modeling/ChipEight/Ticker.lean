/-
A ticker calls a callback once every interval on a thread of its own. Owner and threads are modelled step by step, in
any interleaving: the owner sends a shutdown message, drops its end of the channel and waits for the thread to end,
and only then starts the next one; a thread looks into its channel, calls the callback if nothing has come within the
interval, and leaves on a message, on a dropped channel, or when its callback breaks off or panics; then it ends.

A ticker does not look at its threads to tell whether one is there. It counts references to a token: one is its own, and
each thread takes one along when it is started and lets go of it when it ends, whichever way it left.
-/
import ChipEight.Event

namespace ChipEight

namespace Ticker

/-- how a call of the callback ends -/
inductive CallEnd where
  | again
  | done
  | panic
deriving DecidableEq, Repr

inductive Phase where
  /-- before the channel -/
  | waiting
  /-- an interval has passed without a message, the callback comes next -/
  | due
  /-- inside of the callback -/
  | calling
  /-- behind its last call, but still there -/
  | leaving (panicked : Bool)
  | ended (panicked : Bool)
deriving DecidableEq, Repr

/-- a thread and its channel of one place -/
structure Thread where
  phase : Phase
  /-- a message waits in the channel -/
  message : Bool
  /-- the owner holds its end of the channel -/
  connected : Bool
deriving DecidableEq, Repr

def Thread.spawned : Thread := ⟨.waiting, false, true⟩

def Thread.running (t : Thread) : Bool :=
  match t.phase with
  | .ended _ => false
  | _ => true

/-- what the owner is about: nothing, or a part of stopping, with a start to follow or not -/
inductive Owner where
  | free
  | sending (starting : Bool)
  | disconnecting (starting : Bool)
  | joining (starting : Bool)
deriving DecidableEq, Repr

end Ticker

/-- Threads are numbered by their starts. -/
structure Ticker where
  threads : List Ticker.Thread
  owner : Ticker.Owner
  /-- the thread whose channel the owner can send to -/
  sender : Option Nat
  /-- the thread the owner has to wait for -/
  handle : Option Nat
  /-- references to the token -/
  count : Nat
deriving DecidableEq, Repr

namespace Ticker

inductive Action where
  /-- the owner calls start -/
  | start
  /-- the owner calls stop, or drops the ticker -/
  | stop
  /-- the next part of what the owner called -/
  | advance
  /-- a thread looks into its channel -/
  | look (thread : Nat)
  /-- a thread calls its callback -/
  | call (thread : Nat)
  /-- the callback of a thread ends -/
  | finish (thread : Nat) (how : CallEnd)
  /-- a thread ends -/
  | exit (thread : Nat)
deriving DecidableEq, Repr

/-- what can be told from outside -/
inductive Note where
  | spawned (thread : Nat)
  | called (thread : Nat)
  /-- a panicked thread was waited for -/
  | warned
  /-- a start or a stop has returned -/
  | returned
deriving DecidableEq, Repr

/-- before any start -/
def idle : Ticker := ⟨[], .free, none, none, 1⟩

/-- whether anyone but the owner holds a reference -/
def alive (t : Ticker) : Bool := 1 < t.count

def update (t : Ticker) (i : Nat) (f : Thread → Thread) : Ticker := { t with threads := t.threads.modify i f }

/-- a thread lets go of its reference -/
def release (t : Ticker) : Ticker := { t with count := t.count - 1 }

/-- a message into the channel of a thread that can still take it -/
def send (th : Thread) : Thread := if th.running then { th with message := true } else th

def disconnect (th : Thread) : Thread := { th with connected := false }

/-- the end of a stop, or the start that follows it -/
def conclude (t : Ticker) (starting : Bool) : Outcome Note Ticker Unit :=
  if starting then
    let i := t.threads.length
    ⟨(), ⟨t.threads ++ [.spawned], .free, some i, some i, t.count + 1⟩, [.spawned i, .returned]⟩
  else
    ⟨(), { t with owner := .free }, [.returned]⟩

/-- a part of stopping; waiting for a thread passes when it has ended -/
def advance (t : Ticker) : Option (Outcome Note Ticker Unit) :=
  match t.owner with
  | .free => none
  | .sending starting =>
    match t.sender with
    | some i => some (.quiet () { t.update i send with owner := .disconnecting starting })
    | none => some (.quiet () { t with owner := .joining starting })
  | .disconnecting starting =>
    match t.sender with
    | some i => some (.quiet () { t.update i disconnect with sender := none, owner := .joining starting })
    | none => some (.quiet () { t with owner := .joining starting })
  | .joining starting =>
    match t.handle with
    | none => some (t.conclude starting)
    | some i =>
      match t.threads[i]? with
      | some ⟨.ended panicked, _, _⟩ =>
        let o := { t with handle := none }.conclude starting
        some (if panicked then { o with events := .warned :: o.events } else o)
      | _ => none

/-- where a look into the channel leads: out on a message or a dropped channel, and else the interval passes -/
def Thread.next (th : Thread) : Phase := if th.message || !th.connected then .leaving false else .due

def look (t : Ticker) (i : Nat) : Option (Outcome Note Ticker Unit) :=
  match t.threads[i]? with
  | some ⟨.waiting, _, _⟩ => some (.quiet () (t.update i fun th => { th with phase := th.next }))
  | _ => none

def call (t : Ticker) (i : Nat) : Option (Outcome Note Ticker Unit) :=
  match t.threads[i]? with
  | some ⟨.due, _, _⟩ => some ⟨(), t.update i fun th => { th with phase := .calling }, [.called i]⟩
  | _ => none

/-- where a thread goes when its callback ends -/
def CallEnd.phase : CallEnd → Phase
  | .again => .waiting
  | .done => .leaving false
  | .panic => .leaving true

def finishCall (t : Ticker) (i : Nat) (how : CallEnd) : Option (Outcome Note Ticker Unit) :=
  match t.threads[i]? with
  | some ⟨.calling, _, _⟩ => some (.quiet () (t.update i fun th => { th with phase := how.phase }))
  | _ => none

def exit (t : Ticker) (i : Nat) : Option (Outcome Note Ticker Unit) :=
  match t.threads[i]? with
  | some ⟨.leaving panicked, _, _⟩ =>
    some (.quiet () (t.update i fun th => { th with phase := .ended panicked }).release)
  | _ => none

/-- one step of the owner or of a thread; `none` if it is not its turn -/
def perform (t : Ticker) : Action → Option (Outcome Note Ticker Unit)
  | .start => if t.owner = .free then some (.quiet () { t with owner := .sending true }) else none
  | .stop => if t.owner = .free then some (.quiet () { t with owner := .sending false }) else none
  | .advance => t.advance
  | .look i => t.look i
  | .call i => t.call i
  | .finish i how => t.finishCall i how
  | .exit i => t.exit i

/-- steps in turn, and all that could be told from outside; steps out of turn are left out -/
def run (t : Ticker) : List Action → Outcome Note Ticker Unit
  | [] => .quiet () t
  | a :: rest =>
    match t.perform a with
    | some o => o.andThen fun _ t => run t rest
    | none => run t rest

/-- the message that goes with a note -/
def Note.message? : Note → Option Message
  | .warned => some .threadPanicked
  | _ => none

end Ticker

end ChipEight
