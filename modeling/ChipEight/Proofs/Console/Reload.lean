/-
The rom of a console. It is the one that was loaded last, whatever happened since: no run, halt, reset or reload puts
another one in its place, and no program can write to it, only to the memory it was copied into. So a reload is refused
exactly if nothing was ever loaded, and otherwise it is the load of that rom once more.

A history here is everything that can happen to a console: the calls of its owner, callbacks of its tasks, also of
earlier starts, the player's keys, and the machine in its owner's hands.

Results:
- `perform_rom`, `meet_rom`: the rom after one deed is the one that it loads, if it loads one, and else the rom before;
- `rom_following`: so after a history it is the one loaded last;
- `reload_repeats_load`: all of it for every history of a console, with what a reload comes to.
-/
import ChipEight.Proofs.Console.Lifecycle
import ChipEight.Proofs.Console.Reached

namespace ChipEight.Console

/-! ## Histories -/

/-- one thing that happens to a console -/
inductive Deed where
  | action (a : Action)
  /-- a callback is called, also one that no task knows of -/
  | called (name : TaskName) (which : Callback)
  /-- the machine is in the hands of its owner -/
  | host (a : Machine.Action)

namespace Deed

/-- the rom that is loaded -/
def rom? : Deed → Option Rom
  | .action (.load rom _) => some rom
  | _ => none

end Deed

def meet (c : Console) : Deed → Console
  | .action a => (c.perform a).state
  | .called name which => (c.called name which).state
  | .host a => { c with machine := (c.machine.perform a).state }

/-- the console after a history -/
def following (c : Console) (history : List Deed) : Console := history.foldl meet c

/-- the rom that was loaded last -/
def lastLoaded (history : List Deed) : Option Rom := (history.filterMap Deed.rom?).getLast?

/-- nothing was ever loaded -/
def NeverLoaded (history : List Deed) : Prop := ∀ rom begin, .action (.load rom begin) ∉ history

theorem lastLoaded_eq_none_iff {history : List Deed} : lastLoaded history = none ↔ NeverLoaded history := by
  rw [lastLoaded, List.getLast?_eq_none_iff, List.filterMap_eq_nil_iff]
  constructor
  · intro h rom begin hmem
    cases h _ hmem
  · intro h d hd
    cases d with
    | action a =>
      cases a with
      | load rom begin => exact absurd hd (h rom begin)
      | _ => rfl
    | called name which | host a => rfl

/-! ## One deed -/

variable (c : Console)

theorem load_rom (rom : Rom) (begin : Bool) : (c.load rom begin).state.rom = some rom := by
  rw [load_eq]
  cases begin with
  | false => rfl
  | true => exact (c.loaded rom).start_keeps.1

/-- a reload puts back what it takes out -/
theorem reload_rom (begin : Bool) : (c.reload begin).state.rom = c.rom := by
  cases hr : c.rom with
  | none => rw [reload_of_none hr]; exact hr
  | some rom => rw [reload_of_rom hr]; exact c.load_rom rom begin

theorem setSpeed_rom (speed : Float) : (c.setSpeed speed).state.rom = c.rom := by
  cases hv : Pace.isSpeed speed with
  | false => rw [setSpeed_of_invalid hv]; rfl
  | true =>
    cases hr : c.running with
    | false => rw [setSpeed_of_stopped hv hr]; rfl
    | true => rw [setSpeed_of_running hv hr]; rfl

theorem perform_rom (a : Action) : (c.perform a).state.rom = (Deed.action a).rom?.or c.rom := by
  cases a with
  | load rom begin => exact c.load_rom rom begin
  | reload begin => exact c.reload_rom begin
  | start => exact c.start_keeps.1
  | setSpeed speed => exact c.setSpeed_rom speed
  | stop =>
    show c.stop.state.rom = c.rom
    rw [stop_eq]; rfl
  | reset =>
    show c.reset.state.rom = c.rom
    rw [reset_eq]; rfl
  | call name =>
    rw [perform_call]
    split_ifs
    · exact (c.called_keeps name .current).1
    · rfl
  | stray name => exact (c.turn_keeps name).1
  | step | tick | takeError | hold _ => rfl

theorem meet_rom (d : Deed) : (c.meet d).rom = d.rom?.or c.rom := by
  cases d with
  | action a => exact c.perform_rom a
  | called name which => exact (c.called_keeps name which).1
  | host a => rfl

theorem rom_following (history : List Deed) : (c.following history).rom = (lastLoaded history).or c.rom := by
  induction history generalizing c with
  | nil => rfl
  | cons d rest ih =>
    have hstep : (c.following (d :: rest)).rom = (lastLoaded rest).or (d.rom?.or c.rom) := by
      rw [← meet_rom]
      exact ih (c.meet d)
    rw [hstep, ← Option.or_assoc]
    congr 1
    cases hd : d.rom? with
    | none => simp [lastLoaded, hd]
    | some rom => simp [lastLoaded, hd, List.getLast?_cons]

/-! ## Reloads -/

variable {c}

theorem perform_reload_of_none (h : c.rom = none) (begin : Bool) :
    c.perform (.reload begin) = ⟨.refused .noRom, c, []⟩ := by
  show (c.reload begin).map Reply.ofExcept = _
  rw [reload_of_none h]
  rfl

theorem perform_reload_of_rom {rom : Rom} (h : c.rom = some rom) (begin : Bool) :
    c.perform (.reload begin) = c.perform (.load rom begin) := by
  show (c.reload begin).map Reply.ofExcept = _
  rw [reload_of_rom h]
  rfl

/-- from `0x200` on the memory holds the rom and zeros -/
theorem program_of_load (c : Console) (rom : Rom) (begin : Bool) :
    (c.load rom begin).state.machine.memory.toList.drop 0x200 =
      rom.data ++ List.replicate (Rom.capacity - rom.size) 0 := by
  have hfont : (Memory.font ++ List.replicate (0x200 - 80) 0).length = 0x200 := by
    rw [List.length_append, Memory.length_font, List.length_replicate]
  rw [load_machine, Machine.toList_load, List.append_assoc, List.drop_append, hfont, Nat.sub_self, List.drop_zero,
    List.drop_of_length_le (by rw [hfont]), List.nil_append]

/-- **A reload is the last load once more.** Take a console that was powered on, after any history.

- Its rom is the one that was loaded last, and there is none if none was loaded.
- A reload is refused, for want of a rom, exactly if nothing was ever loaded; then nothing happens at all: no part of
  the console changes, and no task, device or log is told anything.
- Otherwise it comes to all that the load of this rom with the same choice of a start would come to, keeps the rom, and
  leaves its bytes in the memory from `0x200` on, with zeros behind them, whatever the program has made of them. -/
theorem reload_repeats_load (pace : Pace) (random : RandomBytes) (history : List Deed) :
    let c := (powerOn pace random).following history
    c.rom = lastLoaded history ∧
    (∀ begin, (c.perform (.reload begin)).value = .refused .noRom ↔ NeverLoaded history) ∧
    (NeverLoaded history → ∀ begin, c.perform (.reload begin) = ⟨.refused .noRom, c, []⟩) ∧
    (∀ rom, lastLoaded history = some rom → ∀ begin,
      c.perform (.reload begin) = c.perform (.load rom begin) ∧
        (c.perform (.reload begin)).state.rom = some rom ∧
        (c.perform (.reload begin)).state.machine.memory.toList.drop 0x200 =
          rom.data ++ List.replicate (Rom.capacity - rom.size) 0) := by
  intro c
  have hrom : c.rom = lastLoaded history := by
    have h := (powerOn pace random).rom_following history
    rwa [show (powerOn pace random).rom = none from rfl, Option.or_none] at h
  refine ⟨hrom, fun begin => ?_, fun hnever begin => ?_, fun rom hlast begin => ?_⟩
  · rw [← lastLoaded_eq_none_iff, ← hrom]
    cases hr : c.rom with
    | none => simp [perform_reload_of_none hr]
    | some rom =>
      have hv : (c.perform (.load rom begin)).value = .nothing := rfl
      simp [perform_reload_of_rom hr, hv]
  · exact perform_reload_of_none (hrom.trans (lastLoaded_eq_none_iff.2 hnever)) begin
  · rw [perform_reload_of_rom (hrom.trans hlast)]
    exact ⟨rfl, c.load_rom rom begin, c.program_of_load rom begin⟩

end ChipEight.Console
