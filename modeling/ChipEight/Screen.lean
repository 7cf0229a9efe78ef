/-
The screen: 64 columns, 32 rows, each pixel lit or dark. A sprite is a column of bytes, the highest bit of each to the
left; drawing switches the pixels under its set bits and wraps around at every edge. `draw` is the screen afterwards,
`collides` tells whether a lit pixel was switched off on the way.

- `lit_toggle`, `getMsbD_stripe`: what drawing one byte does to each pixel.
-/
namespace ChipEight

/-- rows from top to bottom, in each the highest bit is the leftmost pixel -/
structure Screen where
  rows : Vector (BitVec 64) 32
deriving DecidableEq

namespace Screen

def width : Nat := 64
def height : Nat := 32

def blank : Screen := ⟨Vector.replicate 32 0⟩

/-- the view: whether the pixel in column `x` and row `y` is lit; nothing is lit outside -/
def lit (s : Screen) (x y : Nat) : Bool :=
  match s.rows[y]? with
  | some row => row.getMsbD x
  | none => false

/-- the pixel in column `x` and row `y`, if there is one -/
def pixel? (s : Screen) (x y : Nat) : Option Bool := if x < width ∧ y < height then some (s.lit x y) else none

/-- how many pixels are lit -/
def litCount (s : Screen) : Nat :=
  ((List.range height).map fun y => (List.range width).countP fun x => s.lit x y).foldr (· + ·) 0

/-- a sprite byte as a row, its highest bit in column `x` and the others to the right of it, wrapped around -/
def stripe (byte : UInt8) (x : Nat) : BitVec 64 :=
  (byte.toBitVec.setWidth 64 <<< 56).rotateRight x

/-- a row number from any height, wrapped around -/
def rowAt (y : Nat) : Fin 32 := ⟨y % 32, Nat.mod_lt _ (by decide)⟩

/-- switches the pixels of one row -/
def toggle (s : Screen) (y : Fin 32) (mask : BitVec 64) : Screen :=
  ⟨s.rows.set y (s.rows[y] ^^^ mask)⟩

/-- the screen after a sprite is drawn with its top left corner at column `x` and row `y` -/
def draw (s : Screen) : List UInt8 → (x y : Nat) → Screen
  | [], _, _ => s
  | byte :: rest, x, y => draw (s.toggle (rowAt y) (stripe byte x)) rest x (y + 1)

/-- whether drawing the sprite there switches off a pixel that is lit when its turn comes -/
def collides (s : Screen) : List UInt8 → (x y : Nat) → Bool
  | [], _, _ => false
  | byte :: rest, x, y =>
    s.rows[rowAt y] &&& stripe byte x != 0 || collides (s.toggle (rowAt y) (stripe byte x)) rest x (y + 1)

/-! ## The view -/

theorem lit_toggle (s : Screen) (y : Fin 32) (mask : BitVec 64) (px py : Nat) :
    (s.toggle y mask).lit px py = if py = y.val then s.lit px py ^^ mask.getMsbD px else s.lit px py := by
  unfold lit toggle
  by_cases h : py < 32
  · by_cases e : py = y.val
    · subst e
      simp [BitVec.getMsbD_xor]
    · have e' : y.val ≠ py := fun h => e h.symm
      simp [h, e, Vector.getElem_set_ne _ _ e']
  · have e : py ≠ y.val := by omega
    simp [h, e]

/-- bit `j` of the byte, counted from its highest, stands in column `x + j`, wrapped around -/
theorem getMsbD_stripe (byte : UInt8) (x px : Nat) (h : px < 64) :
    (stripe byte x).getMsbD px = byte.toBitVec.getMsbD ((px + (64 - x % 64)) % 64) := by
  have hx : x % 64 < 64 := Nat.mod_lt _ (by decide)
  have wide (i : Nat) (hi : i < 64) : (byte.toBitVec.setWidth 64 <<< 56).getMsbD i = byte.toBitVec.getMsbD i := by
    rw [BitVec.getMsbD_shiftLeft, BitVec.getMsbD_setWidth]
    by_cases h8 : i < 8
    · simp [show 56 ≤ i + 56 by omega]
    · have none : byte.toBitVec.getMsbD i = false := BitVec.getMsbD_of_ge _ _ (by omega)
      simp [none]
  rw [stripe, BitVec.getMsbD_rotateRight]
  simp only [h, decide_true, Bool.true_and]
  split
  · have e : (64 + px - x % 64) % 64 = (px + (64 - x % 64)) % 64 := by omega
    rw [e, wide _ (Nat.mod_lt _ (by decide))]
  · have e : px - x % 64 = (px + (64 - x % 64)) % 64 := by omega
    rw [e, wide _ (Nat.mod_lt _ (by decide))]

end Screen

end ChipEight
