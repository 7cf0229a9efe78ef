/-
The memory: 4096 bytes, the font at its start, programs from `0x200` on.

- `getElem_write`: writing changes the bytes it is given a place for, and no others.
-/
namespace ChipEight

abbrev Memory := Vector UInt8 4096

namespace Memory

def size : Nat := 4096

/-- where programs start -/
def programStart : Nat := 0x200

/-- bytes of a glyph, one a row -/
def glyphSize : Nat := 5

/-- the glyphs of the digits `0` to `F` -/
def font : List UInt8 := [
  0xF0, 0x90, 0x90, 0x90, 0xF0,
  0x20, 0x60, 0x20, 0x20, 0x70,
  0xF0, 0x10, 0xF0, 0x80, 0xF0,
  0xF0, 0x10, 0xF0, 0x10, 0xF0,
  0x90, 0x90, 0xF0, 0x10, 0x10,
  0xF0, 0x80, 0xF0, 0x10, 0xF0,
  0xF0, 0x80, 0xF0, 0x90, 0xF0,
  0xF0, 0x10, 0x20, 0x40, 0x40,
  0xF0, 0x90, 0xF0, 0x90, 0xF0,
  0xF0, 0x90, 0xF0, 0x10, 0xF0,
  0xF0, 0x90, 0xF0, 0x90, 0x90,
  0xE0, 0x90, 0xE0, 0x90, 0xE0,
  0xF0, 0x80, 0x80, 0x80, 0xF0,
  0xE0, 0x90, 0x90, 0x90, 0xE0,
  0xF0, 0x80, 0xF0, 0x80, 0xF0,
  0xF0, 0x80, 0xF0, 0x80, 0x80]

/-- bytes in a row from `start` on; none beyond the end -/
def write (m : Memory) (start : Nat) : List UInt8 → Memory
  | [] => m
  | b :: rest => write (m.setIfInBounds start b) (start + 1) rest

/-- the bytes from `start` on, as many of `count` as there are -/
def read (m : Memory) (start count : Nat) : List UInt8 := (m.toArray.extract start (start + count)).toList

/-- the same, if all of them lie within the memory -/
def read? (m : Memory) (start count : Nat) : Option (List UInt8) :=
  if start + count ≤ size then some (m.read start count) else none

/-- the font to the start of the memory -/
def loadFont (m : Memory) : Memory := m.write 0 font

/-- zeros behind the font -/
def initial : Memory := loadFont (.replicate 4096 0)

theorem getElem_write (m : Memory) (start : Nat) (bytes : List UInt8) (i : Nat) (h : i < 4096) :
    (m.write start bytes)[i] =
      if start ≤ i ∧ i < start + bytes.length then bytes[i - start]?.getD 0 else m[i] := by
  induction bytes generalizing m start with
  | nil =>
    have h0 : ¬ (start ≤ i ∧ i < start + ([] : List UInt8).length) := by simp only [List.length_nil]; omega
    rw [if_neg h0, write]
  | cons b rest ih =>
    rw [write, ih]
    by_cases h1 : start = i
    · subst h1
      have h2 : ¬ (start + 1 ≤ start ∧ start < start + 1 + rest.length) := by omega
      have h3 : start ≤ start ∧ start < start + (b :: rest).length := by simp only [List.length_cons]; omega
      rw [if_neg h2, if_pos h3, Vector.getElem_setIfInBounds_self, Nat.sub_self]
      rfl
    · by_cases h2 : start + 1 ≤ i ∧ i < start + 1 + rest.length
      · have h3 : start ≤ i ∧ i < start + (b :: rest).length := by simp only [List.length_cons]; omega
        have h4 : i - start = (i - (start + 1)) + 1 := by omega
        rw [if_pos h2, if_pos h3, h4, List.getElem?_cons_succ]
      · have h3 : ¬ (start ≤ i ∧ i < start + (b :: rest).length) := by simp only [List.length_cons]; omega
        rw [if_neg h2, if_neg h3, Vector.getElem_setIfInBounds_ne h h1]

theorem length_read (m : Memory) {start count : Nat} (h : start + count ≤ 4096) :
    (m.read start count).length = count := by
  simp only [read, Array.length_toList, Array.size_extract, Vector.size_toArray]
  omega

end Memory

end ChipEight
