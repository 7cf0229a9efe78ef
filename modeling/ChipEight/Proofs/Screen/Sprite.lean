/-
Sprites as lists of pixels. The set bits of a sprite are met byte by byte and in each byte from the highest on; `dots`
are the pixels that they land on, wrapped around at the edges, in that order and as often as they are hit. Drawing
switches whole rows, a byte at a time; it comes to switching the dots in turn.

Results:
- `mem_setBits`, `nodup_setBits`: the set bits, each of them once;
- `draw_eq_flips`, `collides_eq`: the screen after drawing, and when a sprite collides, by its dots.
-/
import Mathlib.Tactic
import Mathlib.Data.List.ProdSigma
import ChipEight.Proofs.Screen.Pixels

namespace ChipEight.Screen

/-- The set bits of a sprite, each by the number of its byte and its place in it: place `j` is that of bit `7 - j`. -/
def setBits (sprite : List UInt8) : List (Nat × Nat) :=
  (List.range sprite.length ×ˢ List.range 8).filter fun b => (sprite[b.1]?.getD 0).toNat.testBit (7 - b.2)

/-- the pixel in any column and row, wrapped around -/
def placeAt (x y : Nat) : Place := (⟨x % 64, Nat.mod_lt _ (by decide)⟩, rowAt y)

/-- the pixels that the set bits of a sprite land on -/
def dots (sprite : List UInt8) (x y : Nat) : List Place := (setBits sprite).map fun b => placeAt (x + b.2) (y + b.1)

/-- those of a single byte -/
def byteDots (byte : UInt8) (x y : Nat) : List Place :=
  ((List.range 8).filter fun j => byte.toNat.testBit (7 - j)).map fun j => placeAt (x + j) y

variable {sprite : List UInt8} {byte : UInt8} {x y : Nat}

/-! ## The set bits -/

theorem mem_setBits {b : Nat × Nat} :
    b ∈ setBits sprite ↔
      b.1 < sprite.length ∧ b.2 < 8 ∧ (sprite[b.1]?.getD 0).toNat.testBit (7 - b.2) = true := by
  rw [setBits, List.mem_filter, List.mem_product, List.mem_range, List.mem_range, and_assoc]

theorem nodup_setBits (sprite : List UInt8) : (setBits sprite).Nodup :=
  (List.nodup_range.product List.nodup_range).filter _

/-- the first byte, and the others one further down -/
theorem setBits_cons (byte : UInt8) (rest : List UInt8) :
    setBits (byte :: rest) = ((List.range 8).filter fun j => byte.toNat.testBit (7 - j)).map (Prod.mk 0) ++
      (setBits rest).map fun b => (b.1 + 1, b.2) := by
  have hpairs : List.range (rest.length + 1) ×ˢ List.range 8 = (List.range 8).map (Prod.mk 0) ++
      (List.range rest.length ×ˢ List.range 8).map fun b => (b.1 + 1, b.2) := by
    rw [List.range_succ_eq_map, List.product_cons]
    simp [SProd.sprod, List.product, List.flatMap_map, List.map_flatMap, Function.comp_def]
  rw [setBits, List.length_cons, hpairs, List.filter_append, List.filter_map, List.filter_map, setBits]
  rfl

/-! ## The dots -/

theorem length_dots (sprite : List UInt8) (x y : Nat) : (dots sprite x y).length = (setBits sprite).length :=
  List.length_map _

/-- only the places of column and row on the screen count -/
theorem dots_mod (sprite : List UInt8) (x y : Nat) : dots sprite (x % 64) (y % 32) = dots sprite x y := by
  apply List.map_congr_left
  intro b _
  simp only [placeAt, rowAt, Nat.mod_add_mod]

theorem dots_cons (byte : UInt8) (rest : List UInt8) (x y : Nat) :
    dots (byte :: rest) x y = byteDots byte x y ++ dots rest x (y + 1) := by
  rw [dots, setBits_cons, List.map_append, List.map_map, List.map_map]
  congr 1
  apply List.map_congr_left
  intro b _
  have hrow : y + (b.1 + 1) = y + 1 + b.1 := by omega
  simp only [Function.comp_apply, hrow]

theorem mem_byteDots {p : Place} :
    p ∈ byteDots byte x y ↔ p.2 = rowAt y ∧ (stripe byte x).getMsbD p.1 = true := by
  have hp := p.1.isLt
  have hbit (j : Nat) : byte.toBitVec.getMsbD j = (decide (j < 8) && byte.toNat.testBit (7 - j)) := rfl
  simp only [byteDots, List.mem_map, List.mem_filter, List.mem_range, getMsbD_stripe _ _ _ hp, hbit, Bool.and_eq_true,
    decide_eq_true_eq, placeAt, Prod.ext_iff, Fin.ext_iff]
  constructor
  · rintro ⟨j, ⟨hj, hset⟩, hcolumn, hrow⟩
    have hback : (p.1.val + (64 - x % 64)) % 64 = j := by omega
    rw [hback]
    exact ⟨hrow.symm, hj, hset⟩
  · rintro ⟨hrow, hj, hset⟩
    exact ⟨_, ⟨hj, hset⟩, by omega, hrow.symm⟩

/-- eight bits are less than a row -/
theorem nodup_byteDots (byte : UInt8) (x y : Nat) : (byteDots byte x y).Nodup := by
  refine (List.nodup_range.filter _).map_on ?_
  intro i hi j hj h
  have hi := List.mem_range.1 (List.mem_of_mem_filter hi)
  have hj := List.mem_range.1 (List.mem_of_mem_filter hj)
  have hcolumn : (x + i) % 64 = (x + j) % 64 := congrArg (fun p : Place => p.1.val) h
  omega

/-! ## One byte of a sprite -/

theorem toggle_eq_flips (s : Screen) (byte : UInt8) (x y : Nat) :
    s.toggle (rowAt y) (stripe byte x) = s.flips (byteDots byte x y) := by
  apply ext_lit
  intro p
  have hmem : p ∈ byteDots byte x y ↔ _ := mem_byteDots
  rw [lit_toggle, lit_flips, (nodup_byteDots byte x y).count]
  by_cases hrow : p.2 = rowAt y
  · rw [if_pos (congrArg Fin.val hrow)]
    cases hset : (stripe byte x).getMsbD p.1 <;> simp [hmem, hrow, hset]
  · rw [if_neg fun h => hrow (Fin.ext h)]
    simp [hmem, hrow]

theorem collides_byte (s : Screen) (byte : UInt8) (x y : Nat) :
    s.collides [byte] x y = decide (0 < s.struck (byteDots byte x y)) := by
  have hrow (px : Nat) : s.lit px (rowAt y) = s.rows[rowAt y].getMsbD px := by
    simp [lit]
  have hzero : s.rows[rowAt y] &&& stripe byte x = 0 ↔ s.struck (byteDots byte x y) = 0 := by
    rw [struck_eq_zero_iff]
    constructor
    · intro h
      refine ⟨?_, nodup_byteDots byte x y⟩
      intro p hp
      obtain ⟨hp2, hset⟩ := mem_byteDots.1 hp
      have hbit := congrArg (fun row => row.getMsbD p.1) h
      simpa [hp2, hrow, hset] using hbit
    · rintro ⟨h, -⟩
      apply BitVec.eq_of_getMsbD_eq
      intro px hpx
      by_cases hset : (stripe byte x).getMsbD px = true
      · have hdark := h (⟨px, hpx⟩, rowAt y) (mem_byteDots.2 ⟨rfl, hset⟩)
        rw [BitVec.getMsbD_and, ← hrow, hdark]
        simp
      · simp [hset]
  rw [collides, collides, Bool.or_false, bne, beq_eq_decide, ← decide_not, decide_eq_decide, hzero,
    Nat.pos_iff_ne_zero]

/-! ## The whole sprite -/

theorem draw_eq_flips (s : Screen) (sprite : List UInt8) (x y : Nat) :
    s.draw sprite x y = s.flips (dots sprite x y) := by
  induction sprite generalizing s y with
  | nil => rfl
  | cons byte rest ih => rw [draw, ih, dots_cons, flips_append, toggle_eq_flips]

theorem collides_eq (s : Screen) (sprite : List UInt8) (x y : Nat) :
    s.collides sprite x y = decide (0 < s.struck (dots sprite x y)) := by
  induction sprite generalizing s y with
  | nil => rfl
  | cons byte rest ih =>
    have hfirst := s.collides_byte byte x y
    rw [collides, collides, Bool.or_false] at hfirst
    rw [collides, ih, dots_cons, struck_append, toggle_eq_flips, hfirst, ← Bool.decide_or, decide_eq_decide]
    omega

/-- of two sprites one collides if their dots, in turn, strike a lit pixel -/
theorem collides_or (s : Screen) (a b : List UInt8) (xa ya xb yb : Nat) :
    (s.collides a xa ya || (s.draw a xa ya).collides b xb yb) =
      decide (0 < s.struck (dots a xa ya ++ dots b xb yb)) := by
  rw [collides_eq, collides_eq, draw_eq_flips, struck_append, ← Bool.decide_or, decide_eq_decide]
  omega

end ChipEight.Screen
