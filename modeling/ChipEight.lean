import ChipEight.Console.History
import ChipEight.Console.Schedule
import ChipEight.Instruction.Encode
import ChipEight.Machine.Dump
import ChipEight.Machine.History
import ChipEight.Ticker.Schedule
import ChipEight.Proofs.Instruction.Layout
import ChipEight.Proofs.Machine.Summary
import ChipEight.Proofs.Machine.Effect
import ChipEight.Proofs.Machine.Fetch
import ChipEight.Proofs.Machine.Lifecycle
import ChipEight.Proofs.Machine.Invariant
import ChipEight.Proofs.Machine.Failure
import ChipEight.Proofs.Machine.Safety
import ChipEight.Proofs.Console.Reached
import ChipEight.Proofs.Machine.Program
import ChipEight.Proofs.Console.Callbacks
import ChipEight.Proofs.Machine.Nesting
import ChipEight.Proofs.Machine.Surroundings
import ChipEight.Proofs.Machine.Timing
import ChipEight.Proofs.Machine.FreshStart
import ChipEight.Proofs.Console.HaltReport
import ChipEight.Proofs.Console.Lifecycle
import ChipEight.Proofs.Machine.Tone
import ChipEight.Proofs.Console.Tone
import ChipEight.Proofs.Console.Tasks
import ChipEight.Proofs.Machine.Standstill
import ChipEight.Proofs.Console.KeyWait
import ChipEight.Proofs.Machine.Duration
import ChipEight.Proofs.Machine.Frame
import ChipEight.Proofs.Console.Reload
import ChipEight.Proofs.Console.Log
import ChipEight.Proofs.Ticker.Turn
import ChipEight.Proofs.Ticker.Return
import ChipEight.Proofs.Ticker.Protocol
import ChipEight.Proofs.Screen.Pixels
import ChipEight.Proofs.Screen.Sprite
import ChipEight.Proofs.Screen.Drawing
import ChipEight.Proofs.Machine.Draw
import ChipEight.Proofs.Machine.Bounds
import ChipEight.Proofs.Machine.Arithmetic
import ChipEight.Proofs.Machine.Blocks
import ChipEight.Proofs.Machine.Counter
import ChipEight.Proofs.Machine.MemoryEnd
import ChipEight.Proofs.Machine.Reports
import ChipEight.Proofs.Machine.HandedIn
import ChipEight.Proofs.Keypad.Handles
import ChipEight.Proofs.Machine.Dump.Lines
import ChipEight.Proofs.Machine.Dump.Rows
import ChipEight.Proofs.Machine.Dump.Indent
import ChipEight.Proofs.Machine.Dump.State
