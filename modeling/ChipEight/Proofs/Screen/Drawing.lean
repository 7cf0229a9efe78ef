/-
The laws of drawing, for every screen, every sprite of any length and every place. `hits` counts how often a pixel is
hit; more than once is possible, as a sprite that is taller than the screen comes back to its first rows.

Results:
- `draw_toggles`: a pixel changes exactly if it is hit an odd number of times, and a sprite collides exactly if it hits
  a lit pixel or hits a pixel twice;
- `drawing_algebra`: a sprite drawn twice is gone, the order of two sprites does not matter, and the number of lit
  pixels tells whether there was a collision.
-/
import ChipEight.Proofs.Screen.Sprite

namespace ChipEight.Screen

/-- how many set bits of a sprite land on a pixel -/
def hits (sprite : List UInt8) (x y px py : Nat) : Nat :=
  (setBits sprite).countP fun b => (x + b.2) % 64 = px ∧ (y + b.1) % 32 = py

/-- two set bits land on one pixel -/
def HitsTwice (sprite : List UInt8) (x y : Nat) : Prop :=
  ∃ b ∈ setBits sprite, ∃ c ∈ setBits sprite, b ≠ c ∧ (x + b.2) % 64 = (x + c.2) % 64 ∧
    (y + b.1) % 32 = (y + c.1) % 32

variable {sprite : List UInt8} {x y : Nat}

/-! ## Hits -/

theorem placeAt_eq_iff {p : Place} : placeAt x y = p ↔ x % 64 = p.1.val ∧ y % 32 = p.2.val := by
  rw [Prod.ext_iff, Fin.ext_iff, Fin.ext_iff]
  rfl

theorem count_dots (sprite : List UInt8) (x y : Nat) (p : Place) :
    (dots sprite x y).count p = hits sprite x y p.1 p.2 := by
  rw [List.count, dots, List.countP_map, hits]
  apply List.countP_congr
  intro b _
  simp only [Function.comp_apply, beq_iff_eq, decide_eq_true_eq, placeAt_eq_iff]

theorem nodup_dots_iff : (dots sprite x y).Nodup ↔ ¬ HitsTwice sprite x y := by
  rw [dots, List.nodup_map_iff_inj_on (nodup_setBits sprite)]
  simp only [placeAt_eq_iff]
  constructor
  · rintro h ⟨b, hb, c, hc, hne, hsame⟩
    exact hne (h b hb c hc hsame)
  · intro h b hb c hc hsame
    by_contra hne
    exact h ⟨b, hb, c, hc, hne, hsame⟩

/-- in up to thirty-two rows no pixel is hit twice -/
theorem HitsTwice.lt_length (h : HitsTwice sprite x y) : 32 < sprite.length := by
  obtain ⟨b, hb, c, hc, hne, hcolumn, hrow⟩ := h
  obtain ⟨hb1, hb2, -⟩ := mem_setBits.1 hb
  obtain ⟨hc1, hc2, -⟩ := mem_setBits.1 hc
  by_contra hlen
  have h1 : b.1 = c.1 := by omega
  have h2 : b.2 = c.2 := by omega
  exact hne (Prod.ext h1 h2)

/-- **Drawing is a wrapping exclusive or.** A pixel changes exactly if an odd number of set bits land on it. The sprite
collides exactly if one of them lands on a lit pixel, or two land on the same, which takes more than thirty-two rows.
Column and row count only up to the size of the screen, and switching the pixels one after the other, each looked up
before, always finds a pixel and comes to the same. -/
theorem draw_toggles (s : Screen) (sprite : List UInt8) (x y : Nat) :
    (∀ (px : Fin 64) (py : Fin 32),
      (s.draw sprite x y).lit px py = (s.lit px py ^^ decide (hits sprite x y px py % 2 = 1))) ∧
    ((s.collides sprite x y = true ↔
        (∃ b ∈ setBits sprite, s.lit ((x + b.2) % 64) ((y + b.1) % 32) = true) ∨ HitsTwice sprite x y) ∧
      (HitsTwice sprite x y → 32 < sprite.length)) ∧
    (s.draw sprite x y = s.draw sprite (x % 64) (y % 32) ∧
      s.collides sprite x y = s.collides sprite (x % 64) (y % 32)) ∧
    s.plot? ((setBits sprite).map fun b => ((x + b.2) % 64, (y + b.1) % 32)) =
      some (s.draw sprite x y, s.collides sprite x y) := by
  refine ⟨?_, ⟨?_, HitsTwice.lt_length⟩, ⟨?_, ?_⟩, ?_⟩
  · intro px py
    have h := s.lit_flips (dots sprite x y) (px, py)
    rwa [count_dots, ← draw_eq_flips] at h
  · have hdark : (∀ p ∈ dots sprite x y, s.lit p.1 p.2 = false) ↔
        ¬ ∃ b ∈ setBits sprite, s.lit ((x + b.2) % 64) ((y + b.1) % 32) = true := by
      simp only [dots, List.forall_mem_map, not_exists, not_and, Bool.not_eq_true]
      rfl
    rw [collides_eq, decide_eq_true_iff, Nat.pos_iff_ne_zero, Ne, struck_eq_zero_iff, hdark, nodup_dots_iff, not_and_or,
      not_not, not_not]
  · rw [draw_eq_flips, draw_eq_flips, dots_mod]
  · rw [collides_eq, collides_eq, dots_mod]
  · have h := s.plot?_places (dots sprite x y)
    rw [dots, List.map_map] at h
    rw [draw_eq_flips, collides_eq, dots, ← h]
    rfl

/-- a sprite of one row more than the screen collides with itself -/
example : blank.collides (List.replicate 33 0x80) 70 40 = true := by decide

/-! ## Drawing again -/

theorem draw_draw (s : Screen) (sprite : List UInt8) (x y : Nat) : (s.draw sprite x y).draw sprite x y = s := by
  rw [draw_eq_flips, draw_eq_flips, flips_flips_self]

/-! ## Sprites that are no taller than the screen -/

theorem mem_dots {p : Place} :
    p ∈ dots sprite x y ↔ ∃ i byte, sprite[i]? = some byte ∧ ∃ j < 8, byte.toNat.testBit (7 - j) = true ∧
      (x + j) % 64 = p.1.val ∧ (y + i) % 32 = p.2.val := by
  rw [dots, List.mem_map]
  simp only [placeAt_eq_iff]
  constructor
  · rintro ⟨b, hb, hsame⟩
    obtain ⟨hi, hj, hset⟩ := mem_setBits.1 hb
    rw [List.getElem?_eq_getElem hi, Option.getD_some] at hset
    exact ⟨b.1, _, List.getElem?_eq_getElem hi, b.2, hj, hset, hsame⟩
  · rintro ⟨i, byte, hi, j, hj, hset, hsame⟩
    obtain ⟨hlt, -⟩ := List.getElem?_eq_some_iff.1 hi
    refine ⟨(i, j), mem_setBits.2 ⟨hlt, hj, ?_⟩, hsame⟩
    rw [hi]
    exact hset

section

variable {s : Screen} (h : sprite.length ≤ 32)

include h

theorem nodup_dots : (dots sprite x y).Nodup := nodup_dots_iff.2 fun ht => Nat.not_le_of_lt ht.lt_length h

theorem lit_draw_ne_iff {p : Place} :
    (s.draw sprite x y).lit p.1 p.2 ≠ s.lit p.1 p.2 ↔ p ∈ dots sprite x y := by
  rw [draw_eq_flips, lit_flips, (nodup_dots h).count]
  by_cases hp : p ∈ dots sprite x y <;> simp [hp]

/-- it collides exactly if a lit pixel went dark -/
theorem collides_iff :
    s.collides sprite x y = true ↔ ∃ p : Place, s.lit p.1 p.2 = true ∧ (s.draw sprite x y).lit p.1 p.2 = false := by
  rw [collides_eq, decide_eq_true_iff, Nat.pos_iff_ne_zero, Ne, struck_eq_zero_iff, and_iff_left (nodup_dots h)]
  constructor
  · intro hlit
    push Not at hlit
    obtain ⟨p, hp, hlit⟩ := hlit
    have hlit : s.lit p.1 p.2 = true := by simpa using hlit
    have hchange := (lit_draw_ne_iff (s := s) h).2 hp
    exact ⟨p, hlit, by simpa [hlit] using hchange⟩
  · rintro ⟨p, hlit, hdark⟩ hall
    have hchange : (s.draw sprite x y).lit p.1 p.2 ≠ s.lit p.1 p.2 := by simp [hlit, hdark]
    have hp := (lit_draw_ne_iff h).1 hchange
    rw [hall p hp] at hlit
    cases hlit

/-- drawn again it collides exactly if a dark pixel was lit the first time -/
theorem collides_draw_iff :
    (s.draw sprite x y).collides sprite x y = true ↔
      ∃ p : Place, s.lit p.1 p.2 = false ∧ (s.draw sprite x y).lit p.1 p.2 = true := by
  rw [collides_iff h, draw_draw]
  simp only [and_comm]

end

/-! ## Counting pixels -/

/-- each set bit lights a pixel or strikes one -/
theorem litCount_draw (s : Screen) (sprite : List UInt8) (x y : Nat) :
    (s.draw sprite x y).litCount + 2 * s.struck (dots sprite x y) = s.litCount + (setBits sprite).length := by
  rw [draw_eq_flips, litCount_flips, length_dots]

theorem collides_eq_false_iff (s : Screen) :
    s.collides sprite x y = false ↔ s.struck (dots sprite x y) = 0 := by
  rw [collides_eq, decide_eq_false_iff_not, Nat.not_lt, Nat.le_zero]

/-- **The algebra of drawing.**
- A sprite drawn twice at one place leaves the screen as it was, and one of the two collides unless no bit is set.
- Two sprites come to the same screen in either order, and whether one of them collides is the same too, though each
  of them may collide in one order alone.
- At most as many more pixels are lit as there are set bits, exactly as many if the sprite does not collide, and an
  even number less if it does. -/
theorem drawing_algebra (s : Screen) (a b : List UInt8) (xa ya xb yb : Nat) :
    ((s.draw a xa ya).draw a xa ya = s ∧
      ((s.collides a xa ya || (s.draw a xa ya).collides a xa ya) = true ↔ setBits a ≠ [])) ∧
    ((s.draw a xa ya).draw b xb yb = (s.draw b xb yb).draw a xa ya ∧
      (s.collides a xa ya || (s.draw a xa ya).collides b xb yb) =
        (s.collides b xb yb || (s.draw b xb yb).collides a xa ya) ∧
      ∃ (t : Screen) (c d : List UInt8) (x y : Nat), t.collides c x y ≠ (t.draw d x y).collides c x y ∧
        t.collides d x y ≠ (t.draw c x y).collides d x y) ∧
    (s.draw a xa ya).litCount ≤ s.litCount + (setBits a).length ∧
    ((s.draw a xa ya).litCount = s.litCount + (setBits a).length ↔ s.collides a xa ya = false) ∧
    (s.draw a xa ya).litCount % 2 = (s.litCount + (setBits a).length) % 2 := by
  have hcount := s.litCount_draw a xa ya
  refine ⟨⟨?_, ?_⟩, ⟨?_, ?_, ?_⟩, ?_, ?_, ?_⟩
  · exact s.draw_draw a xa ya
  · rw [collides_or, struck_twice, length_dots, decide_eq_true_iff, List.length_pos_iff]
  · have hperm : (dots a xa ya ++ dots b xb yb).Perm (dots b xb yb ++ dots a xa ya) := List.perm_append_comm
    rw [draw_eq_flips, draw_eq_flips, ← flips_append, s.flips_perm hperm, flips_append, ← draw_eq_flips,
      ← draw_eq_flips]
  · rw [collides_or, collides_or, s.struck_perm List.perm_append_comm]
  · exact ⟨blank, [0x80], [0x80], 0, 0, by decide, by decide⟩
  · omega
  · rw [collides_eq_false_iff]
    omega
  · omega

end ChipEight.Screen
