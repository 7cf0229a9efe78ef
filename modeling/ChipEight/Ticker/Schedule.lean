/-
One schedule of a ticker and its threads, for callbacks that are told apart by how many calls they last: a thread runs
only while the owner waits for it, be it for its own end or as part of a stop.
-/
import ChipEight.Ticker

namespace ChipEight.Ticker

/-- a callback that ends its thread on its last call -/
structure Lifespan where
  calls : Nat
  panics : Bool
deriving DecidableEq, Repr

structure Session where
  ticker : Ticker
  lifespan : Lifespan
  /-- calls of the current callback -/
  made : Nat
  /-- calls of all callbacks -/
  total : Nat
  messages : List Message

namespace Session

/-- before any start -/
def idle : Session := ⟨.idle, ⟨0, false⟩, 0, 0, []⟩

/-- counts a call, keeps a message -/
def hear (s : Session) : Note → Session
  | .called _ => { s with made := s.made + 1, total := s.total + 1 }
  | n => { s with messages := s.messages ++ n.message?.toList }

/-- a step, nothing if it is not its turn -/
def perform (s : Session) (a : Action) : Session :=
  match s.ticker.perform a with
  | some o => o.events.foldl hear { s with ticker := o.state }
  | none => s

/-- how the current call ends -/
def callEnd (s : Session) : CallEnd :=
  if s.made < s.lifespan.calls then .again else if s.lifespan.panics then .panic else .done

/-- a step of the newest thread -/
def threadStep (s : Session) : Session :=
  let i := s.ticker.threads.length - 1
  match s.ticker.threads[i]? with
  | some ⟨.calling, _, _⟩ => s.perform (.finish i s.callEnd)
  | some ⟨.due, _, _⟩ => s.perform (.call i)
  | some ⟨.leaving _, _, _⟩ => s.perform (.exit i)
  | _ => s.perform (.look i)

/-- the owner goes on as far as it can, and lets the thread end where it has to -/
def settle : (fuel : Nat) → Session → Session
  | 0, s => s
  | fuel + 1, s =>
    if s.ticker.owner = .free then s
    else if s.ticker.advance.isSome then settle fuel (s.perform .advance)
    else settle fuel s.threadStep

/-- steps that a stop takes at most: three parts, and the last look and the end of a thread that waits -/
def settleSteps : Nat := 5

def stop (s : Session) : Session := (s.perform .stop).settle settleSteps

def start (s : Session) (lifespan : Lifespan) : Session :=
  { (s.perform .start).settle settleSteps with lifespan, made := 0 }

/-- lets the thread run until it ends -/
def wait : (fuel : Nat) → Session → Session
  | 0, s => s
  | fuel + 1, s => if s.ticker.alive then wait fuel s.threadStep else s

/-- waits for a thread to end, which takes three steps a call, at least one call, and the end itself -/
def waitEnd (s : Session) : Session := s.wait (3 * (s.lifespan.calls + 1) + 1)

end Session

end ChipEight.Ticker
