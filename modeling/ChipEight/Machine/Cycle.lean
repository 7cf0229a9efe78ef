/-
A cycle: fetch, decode, run. While a key is awaited a cycle polls the keypad instead. A word that cannot be fetched
changes nothing; from the fetch on the word and the program counter stay, whatever comes of them.
-/
import ChipEight.Instruction.Decode
import ChipEight.Machine.Execute

namespace ChipEight.Machine

/-- the word at the program counter -/
def fetch (m : Machine) : Except (Failure WordError) Word := Word.read m.memory.toArray m.pc.toUInt64

/-- with a word fetched, the program counter points behind it -/
def fetched (m : Machine) (w : Word) : Machine := { m with word := w, pc := m.pc + Step.wordSize }

/-- runs a word that is fetched already -/
def runWord (m : Machine) (w : Word) : Outcome Event Machine Report :=
  match Instruction.decode w with
  | .error e => .quiet (.error (.error (.word e))) m
  | .ok i =>
    let o := m.execute i
    { o with events := .log (.decoded w i) :: o.events }

/-- a failed fetch as a failed cycle -/
def fetchFailure : Failure WordError → Failure CycleError
  | .error e => .error (.word e)
  | .contract => .contract

def cycle (m : Machine) : Outcome Event Machine Report :=
  match m.awaiting with
  | some x => m.poll x
  | none =>
    match m.fetch with
    | .error f => .quiet (.error (fetchFailure f)) m
    | .ok w => (m.fetched w).runWord w

end ChipEight.Machine
