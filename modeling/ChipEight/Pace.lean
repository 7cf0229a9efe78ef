/-
How fast a machine runs: a nominal rate for each of its two periodic tasks, and a speed that multiplies both. The
interval of a task is `10^9 / (rate · speed)` nanoseconds, rounded to the nearest integer, a half upwards, and at most
the largest one of 64 bits.
-/
import ChipEight.Decimal

namespace ChipEight

inductive PaceError where
  /-- the speed is no positive finite number -/
  | invalidSpeed (given : Float)
deriving Repr

def PaceError.message : PaceError → String
  | .invalidSpeed given =>
    "The speed multiplier has to be a positive finite number, got " ++ Decimal.text given ++ "."

structure Pace where
  speed : Float
  /-- cpu cycles a second at speed one -/
  cpuRate : UInt32
  /-- timer ticks a second at speed one -/
  timerRate : UInt32
deriving Repr

namespace Pace

def standard : Pace := ⟨1.0, 1000, 60⟩

/-- whether a number is a speed -/
def isSpeed (f : Float) : Bool := f.isFinite && 0 < f

def withSpeed (p : Pace) (speed : Float) : Except PaceError Pace :=
  if isSpeed speed then .ok { p with speed } else .error (.invalidSpeed speed)

/-- a rate is at least one a second -/
def atLeastOne (rate : UInt32) : UInt32 := if rate = 0 then 1 else rate

def withCpuRate (p : Pace) (rate : UInt32) : Pace := { p with cpuRate := atLeastOne rate }

def withTimerRate (p : Pace) (rate : UInt32) : Pace := { p with timerRate := atLeastOne rate }

/-- the time between two runs of a task, in nanoseconds -/
def interval (rate : UInt32) (speed : Float) : UInt64 := (1000000000.0 / (rate.toFloat * speed)).round.toUInt64

def cpuInterval (p : Pace) : UInt64 := interval p.cpuRate p.speed

def timerInterval (p : Pace) : UInt64 := interval p.timerRate p.speed

end Pace

end ChipEight
