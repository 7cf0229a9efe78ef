/-
Hexadecimal numerals with upper-case digits. `digits n` is the shortest numeral of `n`, `padded w n` has at least `w`
digits, filled with zeros on the left, and `literal w n` is the latter behind `0x`.

- `value_padded`: a numeral reads back as its number, whatever its width, so two numbers never share one.
-/
namespace ChipEight.Hex

/-- the digit of a number below sixteen -/
def digit (d : Nat) : Char := if d < 10 then Char.ofNat (48 + d) else Char.ofNat (55 + d)

/-- the shortest numeral of `n`, most significant digit first -/
def digits (n : Nat) : List Char :=
  if n < 16 then [digit n] else digits (n / 16) ++ [digit (n % 16)]
termination_by n

/-- the numeral of `n` with zeros in front up to `width` digits -/
def padded (width n : Nat) : List Char :=
  List.replicate (width - (digits n).length) '0' ++ digits n

/-- the numeral of `n` with at least `width` digits behind `0x` -/
def literal (width n : Nat) : String := String.ofList ('0' :: 'x' :: padded width n)

/-! ## Reading a numeral back -/

/-- what a digit counts -/
def digitValue (c : Char) : Nat := if c.toNat < 58 then c.toNat - 48 else c.toNat - 55

/-- the number that a numeral writes -/
def value (cs : List Char) : Nat := cs.foldl (fun acc c => acc * 16 + digitValue c) 0

theorem digitValue_digit {d : Nat} (h : d < 16) : digitValue (digit d) = d := by
  revert d; decide

theorem value_snoc (cs : List Char) (c : Char) : value (cs ++ [c]) = value cs * 16 + digitValue c := by
  simp [value]

theorem value_digits (n : Nat) : value (digits n) = n := by
  induction n using Nat.strongRecOn with
  | ind n ih =>
    rw [digits]
    split
    · next h => simp [value, digitValue_digit h]
    · rw [value_snoc, ih (n / 16) (by omega), digitValue_digit (by omega)]
      omega

theorem value_zeros (k : Nat) (cs : List Char) : value (List.replicate k '0' ++ cs) = value cs := by
  induction k with
  | zero => rfl
  | succ k ih => exact ih

theorem value_padded (width n : Nat) : value (padded width n) = n := by
  rw [padded, value_zeros, value_digits]

end ChipEight.Hex
