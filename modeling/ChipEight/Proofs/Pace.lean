/-
The paces there are. A pace is the standard one or made from another by one of the setters; these let no speed pass that
is not positive and finite, and no rate of zero.

Results:
- `isSpeed_eq_false_iff`: what is refused as a speed, on the bits of a double: no number, an infinity, a zero or a
  negative number;
- `Made.proper`: so every pace has a positive finite speed, and rates of at least one.
-/
import ChipEight.Pace
import Mathlib.Tactic

namespace ChipEight.Pace

/-- how a pace comes about -/
inductive Made : Pace → Prop where
  | standard : Made standard
  | withSpeed {p q : Pace} (h : Made p) (speed : Float) (hq : p.withSpeed speed = .ok q) : Made q
  | withCpuRate {p : Pace} (h : Made p) (rate : UInt32) : Made (p.withCpuRate rate)
  | withTimerRate {p : Pace} (h : Made p) (rate : UInt32) : Made (p.withTimerRate rate)

structure Proper (p : Pace) : Prop where
  finite : p.speed.isFinite = true
  positive : 0 < p.speed
  cpuRate : 1 ≤ p.cpuRate
  timerRate : 1 ≤ p.timerRate

theorem unpack_zero : (0 : Float).toModel.unpack = .zero .positive := by rfl

open Float.Model in
theorem isSpeed_eq_false_iff (f : Float) :
    isSpeed f = false ↔ f.isNaN = true ∨ f.isInf = true ∨ f ≤ 0 := by
  -- all of it is about the sign, mantissa and exponent of the double
  have hlt : 0 < f ↔ UnpackedFloat.lt (.zero .positive) f.toModel.unpack = true := by
    rw [← unpack_zero]; exact decide_eq_true_iff
  have hle : f ≤ 0 ↔ UnpackedFloat.le f.toModel.unpack (.zero .positive) = true := by
    rw [← unpack_zero]; exact decide_eq_true_iff
  have hf : f.isFinite = f.toModel.unpack.isFinite := rfl
  have hn : f.isNaN = f.toModel.unpack.isNaN := rfl
  have hi : f.isInf = f.toModel.unpack.isInf := rfl
  rw [isSpeed, hf, hn, hi, hle, Bool.and_eq_false_iff, decide_eq_false_iff_not, hlt]
  cases f.toModel.unpack with
  | notANumber => exact iff_of_true (.inl rfl) (.inl rfl)
  | infinity sign => exact iff_of_true (.inl rfl) (.inr (.inl rfl))
  | zero sign => cases sign <;> decide
  | finite sign mantissa exponent h =>
    cases sign with
    | positive =>
      have hpos : UnpackedFloat.lt (.zero .positive) (.finite .positive mantissa exponent h) = true := rfl
      have hnle : UnpackedFloat.le (.finite .positive mantissa exponent h) (.zero .positive) = false := rfl
      rw [hpos, hnle]
      refine iff_of_false ?_ ?_
      · rintro (hfin | hnot)
        · cases hfin
        · exact hnot rfl
      · rintro (hnan | hinf | hle)
        · cases hnan
        · cases hinf
        · cases hle
    | negative =>
      have hneg : UnpackedFloat.lt (.zero .positive) (.finite .negative mantissa exponent h) = false := rfl
      have hle : UnpackedFloat.le (.finite .negative mantissa exponent h) (.zero .positive) = true := rfl
      rw [hneg, hle]
      exact iff_of_true (.inr Bool.false_ne_true) (.inr (.inr rfl))

theorem isSpeed_eq_true_iff (f : Float) : isSpeed f = true ↔ f.isFinite = true ∧ 0 < f := by
  rw [isSpeed, Bool.and_eq_true, decide_eq_true_iff]

theorem withSpeed_eq_ok_iff {p q : Pace} {speed : Float} :
    p.withSpeed speed = .ok q ↔ isSpeed speed = true ∧ q = { p with speed } := by
  unfold withSpeed
  split_ifs with h
  · rw [Except.ok.injEq]
    exact ⟨fun hq => ⟨h, hq.symm⟩, fun hq => hq.2.symm⟩
  · simp [h]

theorem one_le_atLeastOne (rate : UInt32) : 1 ≤ atLeastOne rate := by
  unfold atLeastOne
  split_ifs with h
  · exact UInt32.le_refl 1
  · have h0 : rate.toNat ≠ 0 := fun h0 => h (UInt32.toNat_inj.1 h0)
    rw [UInt32.le_iff_toNat_le]
    exact Nat.one_le_iff_ne_zero.2 h0

theorem Proper.atSpeed {p : Pace} (h : p.Proper) {speed : Float} (hs : isSpeed speed = true) :
    Proper { p with speed } where
  finite := ((isSpeed_eq_true_iff speed).1 hs).1
  positive := ((isSpeed_eq_true_iff speed).1 hs).2
  cpuRate := h.cpuRate
  timerRate := h.timerRate

theorem Made.proper {p : Pace} (h : p.Made) : p.Proper := by
  induction h with
  | standard => exact ⟨by decide, by decide, by decide, by decide⟩
  | withSpeed _ speed hq ih =>
    obtain ⟨hs, rfl⟩ := withSpeed_eq_ok_iff.1 hq
    exact ih.atSpeed hs
  | withCpuRate _ rate ih => exact { ih with cpuRate := one_le_atLeastOne rate }
  | withTimerRate _ rate ih => exact { ih with timerRate := one_le_atLeastOne rate }

end ChipEight.Pace
