/-
Pixels switched one after the other. `flips` switches the pixels of a list in turn, and `struck` counts those that were
lit when their turn came, and so went dark. Their order does not matter: a pixel ends up switched if it is listed an odd
number of times, and what is struck follows from how many pixels are lit before and afterwards.

Results:
- `lit_flips`: a pixel changes exactly if it is listed an odd number of times;
- `litCount_flips`: the pixels lit afterwards, and twice those struck, are the pixels lit before and those listed;
- `struck_eq_zero_iff`: nothing is struck exactly if all are dark and none is listed twice;
- `flips_perm`, `struck_perm`, `struck_twice`: the order does not matter, and two rounds strike each listed pixel once;
- `plot?_places`: with every pixel looked up before it is switched, it is the same.
-/
import Mathlib.Tactic
import ChipEight.Screen

namespace ChipEight.Screen

/-- a pixel that there is, by its column and its row -/
abbrev Place := Fin 64 × Fin 32

/-- switches one pixel -/
def flip (s : Screen) (p : Place) : Screen := s.toggle p.2 (stripe 0x80 p.1)

/-- switches pixels in turn -/
def flips (s : Screen) (l : List Place) : Screen := l.foldl flip s

/-- how many of them are lit when their turn comes -/
def struck (s : Screen) : List Place → Nat
  | [] => 0
  | p :: rest => (s.lit p.1 p.2).toNat + (s.flip p).struck rest

/-- Switches pixels in turn, each looked up by its column and row: the screen afterwards, and whether one was lit when
its turn came. There is no result if there is no such pixel. -/
def plot? (s : Screen) : List (Nat × Nat) → Option (Screen × Bool)
  | [] => some (s, false)
  | (x, y) :: rest =>
    if h : x < width ∧ y < height then
      (plot? (s.flip (⟨x, h.1⟩, ⟨y, h.2⟩)) rest).map fun o => (o.1, s.lit x y || o.2)
    else
      none

variable {s t : Screen} {l k : List Place}

/-! ## Screens by their pixels -/

theorem ext_lit (h : ∀ p : Place, s.lit p.1 p.2 = t.lit p.1 p.2) : s = t := by
  obtain ⟨rows⟩ := s
  obtain ⟨rows'⟩ := t
  congr 1
  apply Vector.ext
  intro y hy
  apply BitVec.eq_of_getMsbD_eq
  intro x hx
  simpa [lit, hy] using h (⟨x, hx⟩, ⟨y, hy⟩)

theorem litCount_eq_sum (s : Screen) : s.litCount = ∑ p : Place, (s.lit p.1 p.2).toNat := by
  have hsum (f : Nat → Nat) (n : Nat) : ((List.range n).map f).foldr (· + ·) 0 = ∑ y ∈ Finset.range n, f y := rfl
  have hrow (f : Nat → Bool) (n : Nat) : (List.range n).countP f = ∑ x ∈ Finset.range n, (f x).toNat := by
    induction n with
    | zero => rfl
    | succ n ih =>
      rw [List.range_succ, List.countP_append, ih, Finset.sum_range_succ, List.countP_singleton]
      cases f n <;> rfl
  calc s.litCount = ∑ y ∈ Finset.range 32, ∑ x ∈ Finset.range 64, (s.lit x y).toNat := by
        rw [litCount, hsum]
        exact Finset.sum_congr rfl fun y _ => hrow _ 64
    _ = ∑ y : Fin 32, ∑ x : Fin 64, (s.lit x y).toNat := by
        simp only [Finset.sum_range]
    _ = ∑ p : Place, (s.lit p.1 p.2).toNat := by
        rw [Fintype.sum_prod_type_right]

/-! ## One pixel -/

theorem lit_flip (s : Screen) (p q : Place) : (s.flip p).lit q.1 q.2 = (s.lit q.1 q.2 ^^ decide (p = q)) := by
  have hbit : (stripe 0x80 p.1).getMsbD q.1 = decide (p.1 = q.1) := by
    have htop : ∀ i < 64, (0x80 : UInt8).toBitVec.getMsbD i = decide (i = 0) := by decide
    have hp := p.1.isLt
    have hq := q.1.isLt
    rw [getMsbD_stripe _ _ _ hq, htop _ (Nat.mod_lt _ (by decide)), decide_eq_decide, Fin.ext_iff]
    omega
  rw [flip, lit_toggle, hbit]
  by_cases hrow : p.2 = q.2
  · simp [hrow, Prod.ext_iff]
  · have hne : q.2.val ≠ p.2.val := fun h => hrow (Fin.ext h.symm)
    simp [hrow, hne, Prod.ext_iff]

/-- one more pixel is lit, or one less -/
theorem litCount_flip (s : Screen) (p : Place) :
    (s.flip p).litCount + 2 * (s.lit p.1 p.2).toNat = s.litCount + 1 := by
  have hat : ((s.flip p).lit p.1 p.2).toNat + (s.lit p.1 p.2).toNat = 1 := by
    rw [lit_flip, decide_eq_true rfl]
    cases s.lit p.1 p.2 <;> rfl
  have hsum (places : Finset Place) (hp : p ∈ places) :
      ∑ q ∈ places, ((s.flip p).lit q.1 q.2).toNat + 2 * (s.lit p.1 p.2).toNat =
        ∑ q ∈ places, (s.lit q.1 q.2).toNat + 1 := by
    have hrest : ∑ q ∈ places.erase p, ((s.flip p).lit q.1 q.2).toNat =
        ∑ q ∈ places.erase p, (s.lit q.1 q.2).toNat := by
      apply Finset.sum_congr rfl
      intro q hq
      rw [lit_flip, decide_eq_false (Finset.ne_of_mem_erase hq).symm, Bool.xor_false]
    rw [← Finset.add_sum_erase _ _ hp, ← Finset.add_sum_erase _ _ hp, hrest]
    omega
  rw [litCount_eq_sum, litCount_eq_sum]
  apply hsum
  simp

/-! ## Many pixels -/

theorem flips_cons (s : Screen) (p : Place) (l : List Place) : s.flips (p :: l) = (s.flip p).flips l := rfl

theorem flips_append (s : Screen) (l k : List Place) : s.flips (l ++ k) = (s.flips l).flips k := List.foldl_append

theorem struck_append (s : Screen) (l k : List Place) : s.struck (l ++ k) = s.struck l + (s.flips l).struck k := by
  induction l generalizing s with
  | nil => exact (Nat.zero_add _).symm
  | cons p l ih => rw [List.cons_append, struck, struck, ih, Nat.add_assoc, flips_cons]

theorem lit_flips (s : Screen) (l : List Place) (q : Place) :
    (s.flips l).lit q.1 q.2 = (s.lit q.1 q.2 ^^ decide (l.count q % 2 = 1)) := by
  induction l generalizing s with
  | nil => simp [flips]
  | cons p l ih =>
    rw [flips_cons, ih, lit_flip, List.count_cons, Bool.xor_assoc]
    congr 1
    by_cases h : p = q
    · have hodd : (l.count q + 1) % 2 = 1 ↔ ¬ l.count q % 2 = 1 := by omega
      simp [h, hodd, -Nat.mod_two_not_eq_one]
    · simp [h]

/-- each pixel on the list is lit in its turn, or struck -/
theorem litCount_flips (s : Screen) (l : List Place) :
    (s.flips l).litCount + 2 * s.struck l = s.litCount + l.length := by
  induction l generalizing s with
  | nil => rfl
  | cons p l ih =>
    have hfirst := s.litCount_flip p
    have hrest := ih (s.flip p)
    rw [flips_cons, struck, List.length_cons]
    omega

/-- behind the first flip its pixel is lit, so that nothing is struck only if it does not come again -/
theorem dark_flip_iff {p : Place} (hp : s.lit p.1 p.2 = false) :
    (∀ q ∈ l, (s.flip p).lit q.1 q.2 = false) ↔ p ∉ l ∧ ∀ q ∈ l, s.lit q.1 q.2 = false := by
  constructor
  · intro h
    have hpl : p ∉ l := by
      intro hpl
      have hlit := h p hpl
      rw [lit_flip, hp, decide_eq_true rfl] at hlit
      cases hlit
    refine ⟨hpl, ?_⟩
    intro q hq
    have hdark := h q hq
    rwa [lit_flip, decide_eq_false (ne_of_mem_of_not_mem hq hpl).symm, Bool.xor_false] at hdark
  · rintro ⟨hpl, h⟩ q hq
    rw [lit_flip, h q hq, decide_eq_false (ne_of_mem_of_not_mem hq hpl).symm, Bool.xor_false]

theorem struck_eq_zero_iff : s.struck l = 0 ↔ (∀ p ∈ l, s.lit p.1 p.2 = false) ∧ l.Nodup := by
  induction l generalizing s with
  | nil => simp [struck]
  | cons p l ih =>
    rw [struck, Nat.add_eq_zero_iff, ih, Bool.toNat_eq_zero, List.forall_mem_cons, List.nodup_cons]
    constructor
    · rintro ⟨hp, h, hl⟩
      obtain ⟨hpl, hdark⟩ := (dark_flip_iff hp).1 h
      exact ⟨⟨hp, hdark⟩, hpl, hl⟩
    · rintro ⟨⟨hp, hdark⟩, hpl, hl⟩
      exact ⟨hp, (dark_flip_iff hp).2 ⟨hpl, hdark⟩, hl⟩

/-! ## In any order, and twice -/

theorem flips_perm (s : Screen) (h : l.Perm k) : s.flips l = s.flips k := by
  apply ext_lit
  intro p
  rw [lit_flips, lit_flips, h.count_eq]

/-- what is struck is settled by the screens before and afterwards -/
theorem struck_perm (s : Screen) (h : l.Perm k) : s.struck l = s.struck k := by
  have hl := s.litCount_flips l
  have hk := s.litCount_flips k
  rw [s.flips_perm h, h.length_eq] at hl
  omega

theorem flips_flips_self (s : Screen) (l : List Place) : (s.flips l).flips l = s := by
  apply ext_lit
  intro p
  rw [lit_flips, lit_flips, Bool.xor_assoc, Bool.xor_self, Bool.xor_false]

theorem struck_twice (s : Screen) (l : List Place) : s.struck (l ++ l) = l.length := by
  have h := s.litCount_flips (l ++ l)
  rw [flips_append, flips_flips_self, List.length_append] at h
  omega

/-! ## With every pixel looked up -/

theorem plot?_places (s : Screen) (l : List Place) :
    s.plot? (l.map fun p => (p.1.val, p.2.val)) = some (s.flips l, decide (0 < s.struck l)) := by
  induction l generalizing s with
  | nil => rfl
  | cons p l ih =>
    have hp : p.1.val < width ∧ p.2.val < height := ⟨p.1.isLt, p.2.isLt⟩
    have hhit : (s.lit p.1 p.2 || decide (0 < (s.flip p).struck l)) = decide (0 < s.struck (p :: l)) := by
      rw [struck]
      cases s.lit p.1 p.2 <;> simp
    rw [List.map_cons, plot?, dif_pos hp, ih, Option.map_some, flips_cons, ← hhit]

end ChipEight.Screen
